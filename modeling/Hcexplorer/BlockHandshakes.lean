import Hcexplorer.BlockQueue

/-!
# One block, one monitor at a time

For each block and monitor the same eight operations on the monitor's mutex and
channels take place, always in the same order: the call takes `syncConnect`, puts
the connecting lock and the hash in their channels, the handler takes the hash and
then the lock, works, and signals that it is done; the call learns of it and
returns. In every run of the goroutines the operations that have taken place are
the beginning of this list, for the blocks in the order of the queue and for the
monitors in the order of `syncHandlers`. What a handler does, it does after it has
taken the lock for a block, before it signals, and for that block; and when it
signals, it has done its work on the block: the stake database has connected it or
put it on the side chain, blockdata has collected and stored its data.

The invariant of the runs says where `ProcessBlocks` is in the exchange of which
block with which monitor, what the channels and the mutex of the monitor hold there,
and that the code its handler has ahead, given what the handler has done since it
took the lock, signals only at the end of its work.
-/

namespace Hcexplorer.BlockQueue

open Goroutines

variable {BlockData Saver : Type}

/-- The operations by which a block passes to a monitor and back. -/
inductive Handshake where
  | called (monitor : Monitor)
  | offered (monitor : Monitor)
  | passed (monitor : Monitor) (hash : Hash)
  | taken (monitor : Monitor) (hash : Hash)
  | accepted (monitor : Monitor)
  | finished (monitor : Monitor)
  | told (monitor : Monitor)
  | returned (monitor : Monitor)
deriving DecidableEq, Repr

/-- The operations that the call of one monitor for one block consists of, in their order, from
the call to its return. -/
def exchange (monitor : Monitor) (hash : Hash) : List Handshake :=
  [.called monitor, .offered monitor, .passed monitor hash, .taken monitor hash,
    .accepted monitor, .finished monitor, .told monitor, .returned monitor]

/-- The operations for one block: those of the three monitors, one monitor after the other. -/
def blockExchanges (hash : Hash) : List Handshake :=
  syncHandlers.flatMap fun monitor => exchange monitor hash

/-- The operation an event stands for, whichever thread takes part in it. -/
def handshake? : Event (signature BlockData Saver) Thread → Option Handshake
  | .locked _ monitor => some (.called monitor)
  | .sent _ (.connectingLock monitor) _ => some (.offered monitor)
  | .sent _ (.blockChan monitor) hash => some (.passed monitor hash)
  | .received _ (.blockChan monitor) hash => some (.taken monitor hash)
  | .received _ (.connectingLock monitor) _ => some (.accepted monitor)
  | .sent _ (.doneConnecting monitor) _ => some (.finished monitor)
  | .received _ (.doneConnecting monitor) _ => some (.told monitor)
  | .unlocked _ monitor => some (.returned monitor)
  | _ => none

/-- The block that an event puts in the queue. -/
def arrival? : Event (signature BlockData Saver) Thread → Option Hash
  | .arrived .queue bh => some bh.hash
  | _ => none

/-- The operations among the events of a run, in the order in which they happen. -/
def handshakes (events : List (Event (signature BlockData Saver) Thread)) : List Handshake :=
  events.filterMap handshake?

/-- The blocks that were queued in a run, in the order in which the queue received them. -/
def arrivals (events : List (Event (signature BlockData Saver) Thread)) : List Hash :=
  events.filterMap arrival?

/-- The operations that hand every queued block to every monitor. -/
def allExchanges (events : List (Event (signature BlockData Saver) Thread)) : List Handshake :=
  (arrivals events).flatMap blockExchanges

/-- An action that a monitor's handler may do for a block: it is on this monitor and on
no other block. -/
def Action.OnBehalf (monitor : Monitor) (hash : Hash) : Action BlockData Saver → Prop
  | .readReorg own => own = monitor
  | .startReorg .. => False
  | .endReorg own => own = monitor
  | .appendSideChain own each => own = monitor ∧ each = hash
  | .switchToSideChain own => own = monitor
  | .connectBlockHash each => monitor = .stakedb ∧ each = hash
  | .getBlock each => monitor = .blockdata ∧ each = hash
  | .blockReceivesToAddresses each => monitor = .blockdata ∧ each = hash
  | .sendRecvTxBlock each => monitor = .blockdata ∧ each = hash
  | .getBlockCount => monitor = .blockdata
  | .collectHash each => monitor = .blockdata ∧ each = hash
  | .collect => monitor = .blockdata
  | .store _ _ each => monitor = .blockdata ∧ each = hash

/-- An action that a handler has performed, with what it returned. -/
structure Performed (BlockData Saver : Type) where
  action : Action BlockData Saver
  result : action.Result

/-- What a monitor's handler has done for its block, after one more event: when it takes
the connecting lock over it has done nothing yet, and each action it performs adds to
what it has done. Events of other threads change nothing. -/
def noteWork (monitor : Monitor) (done : List (Performed BlockData Saver)) :
    Event (signature BlockData Saver) Thread → List (Performed BlockData Saver)
  | .received _ (.connectingLock own) _ => if own = monitor then [] else done
  | .performed (.blockConnectedHandler own) action result =>
    if own = monitor then done ++ [⟨action, result⟩] else done
  | _ => done

/-- What the handler of a monitor has done since it last took the connecting lock over. -/
def work (events : List (Event (signature BlockData Saver) Thread)) (monitor : Monitor) :
    List (Performed BlockData Saver) :=
  events.foldl (noteWork monitor) []

section Work

variable (setup : Setup BlockData Saver) (monitor : Monitor) (hash : Hash)
  (done : List (Performed BlockData Saver))

/-- The action is one of those the handler has performed, whatever it returned. -/
def Did (action : Action BlockData Saver) : Prop :=
  ∃ result, ⟨action, result⟩ ∈ done

/-- The handler found no reorganization under way when it read its flag, so that the block
extends the main chain. -/
def Extends : Prop :=
  ∃ data, ⟨.readReorg monitor, (false, data)⟩ ∈ done

/-- The handler found a reorganization to another block under way, and put its block on
the side chain. -/
def SetsAside : Prop :=
  ∃ data : ReorgData, ⟨.readReorg monitor, (true, some data)⟩ ∈ done ∧
    data.newChainHead ≠ hash ∧ Did done (.appendSideChain monitor hash)

/-- The handler found a reorganization to its own block under way, and put the block on
the side chain, which is then complete. -/
def CompletesSideChain : Prop :=
  ∃ data : ReorgData, ⟨.readReorg monitor, (true, some data)⟩ ∈ done ∧
    data.newChainHead = hash ∧ Did done (.appendSideChain monitor hash)

/-- The handler has asked for the data of the block, by its hash if the node is at another
height than that of the block, and this is what it got. -/
def Collected (height chainHeight : Int) (collected : Except String BlockData) : Prop :=
  chainHeight = height ∧ ⟨.collect, collected⟩ ∈ done ∨
    chainHeight ≠ height ∧ ⟨.collectHash hash, collected⟩ ∈ done

/-- The handler has asked for the height of the block and for that of the node, has
collected the data of the block, and has stored what it collected with each of the savers.
If the node does not tell its height, or the collection fails, there is nothing to store. -/
def CollectsAndStores (savers : List (Option Saver)) : Prop :=
  ∃ height counted, ⟨.getBlock hash, some height⟩ ∈ done ∧ ⟨.getBlockCount, counted⟩ ∈ done ∧
    ∀ chainHeight, counted = .ok chainHeight →
      ∃ collected, Collected hash done height chainHeight collected ∧
        ∀ blockData, collected = .ok blockData → ∀ saver, some saver ∈ savers →
          Did done (.store saver blockData hash)

/-- The work of each monitor on a block. The stake database connects the block, or puts it
on the side chain, and at the end of the side chain switches to that. Blockdata collects the
block's data and stores them with its savers, unless the block is one of a side chain that
goes on. For hcsqlite there is only work during a reorganization, like that of the stake
database. -/
def DoesWork : Prop :=
  match monitor with
  | .stakedb =>
    Extends .stakedb done ∧ Did done (.connectBlockHash hash) ∨
      SetsAside .stakedb hash done ∨ CompletesSideChain .stakedb hash done ∧
        Did done (.switchToSideChain .stakedb)
  | .blockdata =>
    Extends .blockdata done ∧ CollectsAndStores hash done setup.dataSavers ∨
      SetsAside .blockdata hash done ∨ CompletesSideChain .blockdata hash done ∧
        CollectsAndStores hash done setup.reorgDataSavers
  | .hcsqlite =>
    Extends .hcsqlite done ∨
      SetsAside .hcsqlite hash done ∨ CompletesSideChain .hcsqlite hash done ∧
        Did done (.switchToSideChain .hcsqlite)

end Work

section Handlers

/-- Code that a handler has ahead, once it has done the given actions for its block. On every
path the code acts for the block until the handler's work on it is done, and then signals,
once, before it ends or panics. -/
inductive Releases (setup : Setup BlockData Saver) (monitor : Monitor) (hash : Hash) :
    List (Performed BlockData Saver) → Code (signature BlockData Saver) → Prop where
  | acts {done : List (Performed BlockData Saver)} {action : Action BlockData Saver}
      {next : action.Result → Code (signature BlockData Saver)}
      (behalf : action.OnBehalf monitor hash)
      (later : ∀ result, Releases setup monitor hash (done ++ [⟨action, result⟩]) (next result)) :
      Releases setup monitor hash done (.act action next)
  | signals {done : List (Performed BlockData Saver)} {next : Code (signature BlockData Saver)}
      (worked : DoesWork setup monitor hash done) (ends : next = .done ∨ next = .panic) :
      Releases setup monitor hash done (.send (.doneConnecting monitor) () next)
  | panics {done : List (Performed BlockData Saver)} : Releases setup monitor hash done .panic

variable {setup : Setup BlockData Saver} {hash : Hash} {done : List (Performed BlockData Saver)}

/-- A handler that has done its work for the block releases the caller, whether or not a
panic follows. -/
theorem release_releases {monitor : Monitor} {next : Code (signature BlockData Saver)}
    (worked : DoesWork setup monitor hash done) (ends : next = .done ∨ next = .panic) :
    Releases setup monitor hash done (release monitor (some ()) next) :=
  .signals worked ends

/-- The stake database's handler releases after the block is connected, or set aside, or
the side chain is switched to. -/
theorem stakedbConnected_releases :
    Releases setup .stakedb hash [] (stakedbConnected hash (some ())) := by
  refine .acts rfl ?_
  rintro ⟨reorg, reorgData⟩
  cases reorg with
  | false =>
    refine .acts ⟨rfl, rfl⟩ ?_
    intro connected
    apply release_releases
    · exact Or.inl ⟨⟨reorgData, by simp⟩, connected, by simp⟩
    · exact Or.inl rfl
  | true =>
    refine .acts ⟨rfl, rfl⟩ ?_
    intro appended
    cases reorgData with
    | none => exact .panics
    | some reorgData =>
      show Releases setup .stakedb hash _ (if _ then _ else _)
      split
      · rename_i other
        apply release_releases
        · exact Or.inr (Or.inl ⟨reorgData, by simp, other, appended, by simp⟩)
        · exact Or.inl rfl
      · rename_i isHead
        refine .acts rfl ?_
        intro switched
        split
        · exact .panics
        · split
          · refine .acts rfl ?_
            intro ended
            apply release_releases
            · exact Or.inr (Or.inr ⟨⟨reorgData, by simp, not_not.mp isHead, appended, by simp⟩,
                switched, by simp⟩)
            · exact Or.inl rfl
          · exact .panics

/-- The handler of hcsqlite releases at once, or after the block is set aside or the side
chain is switched to, and also before it panics for a switch that has not got to the
announced head. -/
theorem hcsqliteConnected_releases :
    Releases setup .hcsqlite hash [] (hcsqliteConnected hash (some ())) := by
  refine .acts rfl ?_
  rintro ⟨reorg, reorgData⟩
  cases reorg with
  | false =>
    apply release_releases
    · exact Or.inl ⟨reorgData, by simp⟩
    · exact Or.inl rfl
  | true =>
    refine .acts ⟨rfl, rfl⟩ ?_
    intro appended
    cases reorgData with
    | none => exact .panics
    | some reorgData =>
      show Releases setup .hcsqlite hash _ (if _ then _ else _)
      split
      · rename_i other
        apply release_releases
        · exact Or.inr (Or.inl ⟨reorgData, by simp, other, appended, by simp⟩)
        · exact Or.inl rfl
      · rename_i isHead
        refine .acts rfl ?_
        intro switched
        split
        · refine .acts rfl ?_
          intro ended
          apply release_releases
          · exact Or.inr (Or.inr ⟨⟨reorgData, by simp, not_not.mp isHead, appended, by simp⟩,
              switched, by simp⟩)
          · exact Or.inl rfl
        · apply release_releases
          · exact Or.inr (Or.inr ⟨⟨reorgData, by simp, not_not.mp isHead, appended, by simp⟩,
              switched, by simp⟩)
          · exact Or.inr rfl

/-- Storing with each saver releases, if the code that follows does once every saver has
been given the data. What was done before is still done. -/
theorem storeAll_releases {savers : List (Option Saver)} {blockData : BlockData}
    {next : Code (signature BlockData Saver)}
    (after : ∀ later, (∀ each ∈ done, each ∈ later) →
      (∀ saver, some saver ∈ savers → Did later (.store saver blockData hash)) →
      Releases setup .blockdata hash later next) :
    Releases setup .blockdata hash done (storeAll savers blockData hash next) := by
  induction savers generalizing done with
  | nil =>
    apply after done
    · intro each present
      exact present
    · intro saver present
      cases present
  | cons saver rest inductionHypothesis =>
    cases saver with
    | none =>
      apply inductionHypothesis
      intro later kept stored
      apply after later kept
      intro saver present
      cases present with
      | tail _ present => exact stored saver present
    | some saver =>
      refine .acts ⟨rfl, rfl⟩ ?_
      intro result
      apply inductionHypothesis
      intro later kept stored
      apply after later
      · intro each present
        exact kept each (List.mem_append_left _ present)
      · intro other present
        cases present with
        | head => exact ⟨result, kept _ (by simp)⟩
        | tail _ present => exact stored other present

/-- What a handler has collected is still collected when it has done more. -/
theorem Collected.mono {height chainHeight : Int} {collected : Except String BlockData}
    {later : List (Performed BlockData Saver)}
    (asked : Collected hash done height chainHeight collected)
    (kept : ∀ each ∈ done, each ∈ later) :
    Collected hash later height chainHeight collected := by
  rcases asked with ⟨same, present⟩ | ⟨apart, present⟩
  · exact Or.inl ⟨same, kept _ present⟩
  · exact Or.inr ⟨apart, kept _ present⟩

section Collection

variable {savers : List (Option Saver)} {height chainHeight : Int}

/-- Blockdata's handler releases at once when the collection has failed. -/
theorem failed_releases {err : String} (known : ⟨.getBlock hash, some height⟩ ∈ done)
    (counted : ⟨.getBlockCount, .ok chainHeight⟩ ∈ done)
    (asked : Collected hash done height chainHeight (.error err))
    (lacks : CollectsAndStores hash done savers → DoesWork setup .blockdata hash done) :
    Releases setup .blockdata hash done (release .blockdata (some ()) .done) := by
  apply release_releases
  · apply lacks
    refine ⟨height, .ok chainHeight, known, counted, ?_⟩
    intro own same
    cases same
    refine ⟨.error err, asked, ?_⟩
    intro blockData same
    cases same
  · exact Or.inl rfl

/-- Blockdata's handler releases after it has stored what it collected. -/
theorem collected_releases {blockData : BlockData}
    (known : ⟨.getBlock hash, some height⟩ ∈ done)
    (counted : ⟨.getBlockCount, .ok chainHeight⟩ ∈ done)
    (asked : Collected hash done height chainHeight (.ok blockData))
    (lacks : ∀ later, (∀ each ∈ done, each ∈ later) → CollectsAndStores hash later savers →
      DoesWork setup .blockdata hash later) :
    Releases setup .blockdata hash done
      (storeAll savers blockData hash (release .blockdata (some ()) .done)) := by
  apply storeAll_releases
  intro later kept stored
  apply release_releases
  · apply lacks later kept
    refine ⟨height, .ok chainHeight, kept _ known, kept _ counted, ?_⟩
    intro own same
    cases same
    refine ⟨.ok blockData, asked.mono kept, ?_⟩
    intro other same
    cases same
    exact stored
  · exact Or.inl rfl

end Collection

/-- Blockdata's handler releases on every early exit and after the last saver, if the
collection and the storage were all that its work lacked. -/
theorem collectAndStore_releases {reorg : Bool} {height : Int}
    (known : ⟨.getBlock hash, some height⟩ ∈ done)
    (lacks : ∀ later, (∀ each ∈ done, each ∈ later) →
      CollectsAndStores hash later (if reorg then setup.reorgDataSavers else setup.dataSavers) →
      DoesWork setup .blockdata hash later) :
    Releases setup .blockdata hash done
      (collectAndStore setup hash (some ()) reorg height) := by
  refine .acts rfl ?_
  intro counted
  cases counted with
  | error err =>
    apply release_releases
    · apply lacks
      · intro each present
        exact List.mem_append_left _ present
      · refine ⟨height, .error err, List.mem_append_left _ known, by simp, ?_⟩
        intro chainHeight same
        cases same
    · exact Or.inl rfl
  | ok chainHeight =>
    have grown : ∀ asked : Performed BlockData Saver, ∀ each ∈ done,
        each ∈ done ++ [⟨.getBlockCount, .ok chainHeight⟩] ++ [asked] := by
      intro asked each present
      simp [present]
    show Releases setup .blockdata hash _ (if _ then _ else _)
    split
    · rename_i apart
      refine .acts ⟨rfl, rfl⟩ ?_
      intro collected
      have asked : Collected hash (done ++ [⟨.getBlockCount, .ok chainHeight⟩] ++
          [⟨.collectHash hash, collected⟩]) height chainHeight collected :=
        Or.inr ⟨apart, by simp⟩
      cases collected with
      | error err =>
        exact failed_releases (grown _ _ known) (by simp) asked (lacks _ (grown _))
      | ok blockData =>
        apply collected_releases (grown _ _ known) (by simp) asked
        intro later kept
        exact lacks later fun each present => kept each (grown _ each present)
    · rename_i same
      refine .acts rfl ?_
      intro collected
      have asked : Collected hash (done ++ [⟨.getBlockCount, .ok chainHeight⟩] ++
          [⟨.collect, collected⟩]) height chainHeight collected :=
        Or.inl ⟨not_not.mp same, by simp⟩
      cases collected with
      | error err =>
        exact failed_releases (grown _ _ known) (by simp) asked (lacks _ (grown _))
      | ok blockData =>
        apply collected_releases (grown _ _ known) (by simp) asked
        intro later kept
        exact lacks later fun each present => kept each (grown _ each present)

/-- Blockdata's handler asks for the block, and for the transactions that pay to watched
addresses, before it collects and stores. -/
theorem collectBlock_releases {reorg : Bool}
    (lacks : ∀ later, (∀ each ∈ done, each ∈ later) →
      CollectsAndStores hash later (if reorg then setup.reorgDataSavers else setup.dataSavers) →
      DoesWork setup .blockdata hash later) :
    Releases setup .blockdata hash done (collectBlock setup hash (some ()) reorg) := by
  refine .acts ⟨rfl, rfl⟩ ?_
  intro block
  cases block with
  | none => exact .panics
  | some height =>
    show Releases setup .blockdata hash _ (if _ then _ else _)
    split
    · refine .acts ⟨rfl, rfl⟩ ?_
      intro found
      cases found with
      | false =>
        apply collectAndStore_releases
        · simp
        · intro later kept
          exact lacks later fun each present => kept each (by simp [present])
      | true =>
        refine .acts ⟨rfl, rfl⟩ ?_
        intro sent
        apply collectAndStore_releases
        · simp
        · intro later kept
          exact lacks later fun each present => kept each (by simp [present])
    · apply collectAndStore_releases
      · simp
      · intro later kept
        exact lacks later fun each present => kept each (by simp [present])

/-- Blockdata's handler releases when the block is set aside, and otherwise once the block
is collected and stored. -/
theorem blockdataConnected_releases :
    Releases setup .blockdata hash [] (blockdataConnected setup hash (some ())) := by
  refine .acts rfl ?_
  rintro ⟨reorg, reorgData⟩
  cases reorg with
  | false =>
    apply collectBlock_releases
    intro later kept stored
    exact Or.inl ⟨⟨reorgData, kept _ (by simp)⟩, stored⟩
  | true =>
    refine .acts ⟨rfl, rfl⟩ ?_
    intro appended
    cases reorgData with
    | none => exact .panics
    | some reorgData =>
      show Releases setup .blockdata hash _ (if _ then _ else _)
      split
      · rename_i other
        apply release_releases
        · exact Or.inr (Or.inl ⟨reorgData, by simp, other, appended, by simp⟩)
        · exact Or.inl rfl
      · rename_i isHead
        refine .acts rfl ?_
        intro ended
        apply collectBlock_releases
        intro later kept stored
        exact Or.inr (Or.inr ⟨⟨reorgData, kept _ (by simp), not_not.mp isHead, appended,
          kept _ (by simp)⟩, stored⟩)

/-- Each monitor's handler, from where it has taken the connecting lock over, acts for the
block until its work on the block is done and then releases. -/
theorem blockConnected_releases (monitor : Monitor) :
    Releases setup monitor hash [] (blockConnected setup monitor hash (some ())) := by
  cases monitor with
  | stakedb => exact stakedbConnected_releases
  | blockdata => exact blockdataConnected_releases
  | hcsqlite => exact hcsqliteConnected_releases

end Handlers

section Attribution

variable {setup : Setup BlockData Saver}
  {events new : List (Event (signature BlockData Saver) Thread)}

/-- Whatever a handler does, it does after it has taken the connecting lock for a block and
before it signals, and for that block. -/
def Attributed (events : List (Event (signature BlockData Saver) Thread)) : Prop :=
  ∀ past monitor action result later,
    events = past ++ .performed (.blockConnectedHandler monitor) action result :: later →
    ∃ earlier hash, handshakes past = earlier ++ (exchange monitor hash).take 5 ∧
      action.OnBehalf monitor hash

/-- Whenever a monitor signals that it is done, the last operation so far is that its handler
took the connecting lock over for a block, and since then the handler has done its work on
that block. -/
def Worked (setup : Setup BlockData Saver)
    (events : List (Event (signature BlockData Saver) Thread)) : Prop :=
  ∀ past thread monitor token later,
    events = past ++ .sent thread (.doneConnecting monitor) token :: later →
    ∃ earlier hash, handshakes past = earlier ++ (exchange monitor hash).take 5 ∧
      DoesWork setup monitor hash (work past monitor)

/-- What an event asks of those before it: an action of a handler, that the handler has taken
the connecting lock over for the block it acts for; the signal of a monitor, that its handler
has also done the work on the block since. Other events ask nothing. -/
def Accounts (setup : Setup BlockData Saver)
    (past : List (Event (signature BlockData Saver) Thread)) :
    Event (signature BlockData Saver) Thread → Prop
  | .performed (.blockConnectedHandler monitor) action _ =>
    ∃ earlier hash, handshakes past = earlier ++ (exchange monitor hash).take 5 ∧
      action.OnBehalf monitor hash
  | .sent _ (.doneConnecting monitor) _ =>
    ∃ earlier hash, handshakes past = earlier ++ (exchange monitor hash).take 5 ∧
      DoesWork setup monitor hash (work past monitor)
  | _ => True

/-- Every event has what it asks of those before it. -/
def Accounted (setup : Setup BlockData Saver)
    (events : List (Event (signature BlockData Saver) Thread)) : Prop :=
  ∀ past event later, events = past ++ event :: later → Accounts setup past event

/-- Events that are accounted for stay so when one more event comes that has what is asked of all
of them. -/
theorem Accounted.concat {event : Event (signature BlockData Saver) Thread}
    (accounted : Accounted setup events) (accounts : Accounts setup events event) :
    Accounted setup (events ++ [event]) := by
  intro past other later split
  rcases List.append_eq_append_iff.mp split with ⟨front, isPast, isNew⟩ | ⟨rest, isEvents, isNew⟩
  · cases front with
    | nil =>
      obtain ⟨rfl, -⟩ := List.cons_eq_cons.mp isNew
      rw [isPast, List.append_nil]
      exact accounts
    | cons head front =>
      have lengths := congrArg List.length isNew
      simp at lengths
  · cases rest with
    | nil =>
      obtain ⟨rfl, -⟩ := List.cons_eq_cons.mp isNew
      rw [List.append_nil] at isEvents
      rw [← isEvents]
      exact accounts
    | cons head rest =>
      obtain ⟨rfl, -⟩ := List.cons_eq_cons.mp isNew
      exact accounted past other rest isEvents

/-- Events that ask nothing of those before them leave the account as it is. -/
theorem Accounted.append (accounted : Accounted setup events)
    (quiet : ∀ event ∈ new, ∀ past, Accounts setup past event) :
    Accounted setup (events ++ new) := by
  induction new generalizing events with
  | nil =>
    rw [List.append_nil]
    exact accounted
  | cons event rest inductionHypothesis =>
    rw [List.append_cons]
    apply inductionHypothesis
    · exact accounted.concat (quiet event List.mem_cons_self events)
    · intro other present
      exact quiet other (List.mem_cons_of_mem _ present)

/-- In particular the handlers act for the blocks they have taken over. -/
theorem Accounted.attributed (accounted : Accounted setup events) : Attributed events :=
  fun past monitor action result later split =>
    accounted past (.performed (.blockConnectedHandler monitor) action result) later split

/-- In every run that is accounted for, each monitor signals its end only after the work for its
block. -/
theorem Accounted.worked (accounted : Accounted setup events) : Worked setup events :=
  fun past thread monitor token later split =>
    accounted past (.sent thread (.doneConnecting monitor) token) later split

end Attribution

section Invariant

variable (setup : Setup BlockData Saver)
  (state : State (signature BlockData Saver) Thread (Monitor → Reorganization))

/-- The handler of a monitor waits for a block, unless it has panicked. -/
def Waits (monitor : Monitor) : Prop :=
  (system setup).ahead state (.blockConnectedHandler monitor) =
      blockConnectedHandler setup monitor ∨
    (system setup).ahead state (.blockConnectedHandler monitor) = .panic

/-- Nothing is under way between a caller and the monitor. -/
structure AtRest (monitor : Monitor) : Prop where
  waits : Waits setup state monitor
  connectingLock : state.buffer (.connectingLock monitor) = []
  blockChan : state.buffer (.blockChan monitor) = []
  free : state.held monitor = false

/-- How far the exchange of a block with a monitor is. -/
inductive Point where
  | entering
  | offering
  | passing
  | queued
  | taken
  | working
  | leaving
deriving DecidableEq

namespace Point

/-- What `BlockConnectedSync` and the code after it have ahead. -/
def caller (monitor : Monitor) (hash : Hash) (after : Code (signature BlockData Saver)) :
    Point → Code (signature BlockData Saver)
  | .entering => (blockConnectedSync monitor hash).andThen after
  | .offering => .send (.connectingLock monitor) () <| .send (.blockChan monitor) hash <|
      .receive (.doneConnecting monitor) fun _ => .unlock monitor after
  | .passing => .send (.blockChan monitor) hash <|
      .receive (.doneConnecting monitor) fun _ => .unlock monitor after
  | .queued | .taken | .working => .receive (.doneConnecting monitor) fun _ => .unlock monitor after
  | .leaving => .unlock monitor after

/-- What the handler has ahead, where it works given what it has done for the block. -/
def Handler (monitor : Monitor) (hash : Hash) (done : List (Performed BlockData Saver)) :
    Point → Prop
  | .taken => (system setup).ahead state (.blockConnectedHandler monitor) =
      .tryReceive (.connectingLock monitor) fun handoff => blockConnected setup monitor hash handoff
  | .working => Releases setup monitor hash done
      ((system setup).ahead state (.blockConnectedHandler monitor))
  | _ => Waits setup state monitor

/-- What the channel of the connecting lock holds while the call is at a point: a token from the
send until the handler takes it. -/
def tokens : Point → List Unit
  | .passing | .queued | .taken => [()]
  | _ => []

/-- What the channel of blocks holds while the call is at a point: the hash of the block, from
its send until it is taken. -/
def hashes (hash : Hash) : Point → List Hash
  | .queued => [hash]
  | _ => []

/-- Whether the call holds `syncConnect`, which it does from its first step on. -/
def held : Point → Bool
  | .entering => false
  | _ => true

/-- The operations of the exchange that have taken place. -/
def count : Point → Nat
  | .entering => 0
  | .offering => 1
  | .passing => 2
  | .queued => 3
  | .taken => 4
  | .working => 5
  | .leaving => 7

end Point

/-- The exchange of a block with a monitor is at the given point, and the monitor's handler
has done the given actions since it last took the connecting lock over. -/
structure Within (point : Point) (monitor : Monitor) (hash : Hash)
    (after : Code (signature BlockData Saver)) (done : List (Performed BlockData Saver)) :
    Prop where
  caller : (system setup).ahead state .processBlocks = point.caller monitor hash after
  handler : point.Handler setup state monitor hash done
  connectingLock : state.buffer (.connectingLock monitor) = point.tokens
  blockChan : state.buffer (.blockChan monitor) = point.hashes hash
  held : state.held monitor = point.held

/-- A block at a monitor: the blocks before it, the monitors before and after. -/
structure Call where
  past : List Hash
  front : List Monitor
  monitor : Monitor
  back : List Monitor
  hash : Hash
  height : Int64

/-- What `ProcessBlocks` does after the call: the calls of the monitors that are left for this
block, and then its signals. -/
def Call.after (call : Call) : Code (signature BlockData Saver) :=
  (callHandlers call.back call.hash).andThen (signals call.height)

/-- The call is at the given point, given the operations so far, the blocks that were
queued, and what each handler has done for its block. -/
structure Calling (call : Call) (point : Point) (operations : List Handshake)
    (blocks : List Hash) (done : Monitor → List (Performed BlockData Saver)) : Prop where
  order : syncHandlers = call.front ++ call.monitor :: call.back
  within : Within setup state point call.monitor call.hash call.after (done call.monitor)
  others : ∀ other, other ≠ call.monitor → AtRest setup state other
  isOperations : operations = call.past.flatMap blockExchanges ++
    call.front.flatMap (exchange · call.hash) ++
    (exchange call.monitor call.hash).take point.count
  isBlocks : blocks = call.past ++ call.hash :: (state.buffer .queue).map BlockHashHeight.hash

/-- Between two blocks: all that were taken from the queue have passed every monitor. -/
structure Between (operations : List Handshake) (blocks : List Hash) : Prop where
  code : (system setup).ahead state .processBlocks = processBlocks ∨
    (∃ height, (system setup).ahead state .processBlocks = signals height) ∨
    ∃ status, (system setup).ahead state .processBlocks =
      .trySend .updateStatusNodeHeight status .done
  rest : ∀ monitor, AtRest setup state monitor
  isPast : ∃ past : List Hash, operations = past.flatMap blockExchanges ∧
    blocks = past ++ (state.buffer .queue).map BlockHashHeight.hash

/-- Where `ProcessBlocks` is: between two blocks, or at a point of the call of one monitor for
one block. -/
def Stage (operations : List Handshake) (blocks : List Hash)
    (done : Monitor → List (Performed BlockData Saver)) : Prop :=
  Between setup state operations blocks ∨
    ∃ call point, Calling setup state call point operations blocks done

/-- What holds in every state of a run, given its events. -/
structure Orderly (events : List (Event (signature BlockData Saver) Thread)) : Prop where
  stage : Stage setup state (handshakes events) (arrivals events) (work events)
  doneConnecting : ∀ monitor, state.buffer (.doneConnecting monitor) = []
  reorgHandlers : ∀ monitor,
    (system setup).ahead state (.reorgHandler monitor) = reorgHandler monitor ∨
      ∃ data, (system setup).ahead state (.reorgHandler monitor) =
        .act (.startReorg monitor data) fun _ => .done
  accounted : Accounted setup events

end Invariant

section Steps

variable {setup : Setup BlockData Saver}
  {state after : State (signature BlockData Saver) Thread (Monitor → Reorganization)}
  {events new : List (Event (signature BlockData Saver) Thread)}

/-- What the handlers can have ahead at any stage: each waits for a block, but for the one whose
monitor is being called. -/
theorem Stage.handler {operations : List Handshake} {blocks : List Hash}
    {done : Monitor → List (Performed BlockData Saver)}
    (stage : Stage setup state operations blocks done) (monitor : Monitor) :
    Waits setup state monitor ∨
      (∃ hash, (system setup).ahead state (.blockConnectedHandler monitor) =
        .tryReceive (.connectingLock monitor) fun handoff =>
          blockConnected setup monitor hash handoff) ∨
      ∃ hash, Releases setup monitor hash (done monitor)
        ((system setup).ahead state (.blockConnectedHandler monitor)) := by
  rcases stage with between | ⟨call, point, calling⟩
  · exact Or.inl (between.rest monitor).waits
  · by_cases same : monitor = call.monitor
    · subst same
      have handler := calling.within.handler
      cases point with
      | taken => exact Or.inr (Or.inl ⟨call.hash, handler⟩)
      | working => exact Or.inr (Or.inr ⟨call.hash, handler⟩)
      | _ => exact Or.inl handler
    · exact Or.inl (calling.others monitor same).waits

/-- Only the handler of a monitor receives its blocks. -/
theorem Orderly.receives_block (orderly : Orderly setup state events) {other : Thread}
    {monitor : Monitor} {next : Hash → Code (signature BlockData Saver)}
    (code : (system setup).ahead state other = .receive (.blockChan monitor) next) :
    other = .blockConnectedHandler monitor ∧
      next = fun hash => .tryReceive (.connectingLock monitor) fun handoff =>
        blockConnected setup monitor hash handoff := by
  cases other with
  | processBlocks =>
    rcases orderly.stage with between | ⟨call, point, calling⟩
    · rcases between.code with ahead | ⟨height, ahead⟩ | ⟨status, ahead⟩
      all_goals
        rw [ahead] at code
        cases code
    · have caller := calling.within.caller
      rw [code] at caller
      cases point
      all_goals cases caller
  | blockConnectedHandler own =>
    rcases orderly.stage.handler own with (waits | panicked) | ⟨hash, taken⟩ | ⟨hash, works⟩
    · rw [waits] at code
      cases code
      exact ⟨rfl, rfl⟩
    · rw [panicked] at code
      cases code
    · rw [taken] at code
      cases code
    · rw [code] at works
      cases works
  | reorgHandler own =>
    rcases orderly.reorgHandlers own with waits | ⟨data, takes⟩
    · rw [waits] at code
      cases code
    · rw [takes] at code
      cases code

/-- Only `ProcessBlocks` receives the signal of a monitor, for no other goroutine has such a
receive ahead. -/
theorem Orderly.receives_done (orderly : Orderly setup state events) {other : Thread}
    {monitor : Monitor} {next : Unit → Code (signature BlockData Saver)}
    (code : (system setup).ahead state other = .receive (.doneConnecting monitor) next) :
    other = .processBlocks := by
  cases other with
  | processBlocks => rfl
  | blockConnectedHandler own =>
    rcases orderly.stage.handler own with (waits | panicked) | ⟨hash, taken⟩ | ⟨hash, works⟩
    · rw [waits] at code
      cases code
    · rw [panicked] at code
      cases code
    · rw [taken] at code
      cases code
    · rw [code] at works
      cases works
  | reorgHandler own =>
    rcases orderly.reorgHandlers own with waits | ⟨data, takes⟩
    · rw [waits] at code
      cases code
    · rw [takes] at code
      cases code

/-- The operations among the events of two parts of a run are those of the first and then those
of the second. -/
@[simp] theorem handshakes_append (front back : List (Event (signature BlockData Saver) Thread)) :
    handshakes (front ++ back) = handshakes front ++ handshakes back :=
  List.filterMap_append

/-- The blocks that were queued in two parts of a run are those of the first and then those of
the second. -/
@[simp] theorem arrivals_append (front back : List (Event (signature BlockData Saver) Thread)) :
    arrivals (front ++ back) = arrivals front ++ arrivals back :=
  List.filterMap_append

/-- A monitor is still at rest if nothing of it has changed. -/
theorem AtRest.of_same {monitor : Monitor} (atRest : AtRest setup state monitor)
    (handler : (system setup).ahead after (.blockConnectedHandler monitor) =
      (system setup).ahead state (.blockConnectedHandler monitor))
    (connectingLock : after.buffer (.connectingLock monitor) =
      state.buffer (.connectingLock monitor))
    (blockChan : after.buffer (.blockChan monitor) = state.buffer (.blockChan monitor))
    (held : after.held monitor = state.held monitor) : AtRest setup after monitor where
  waits := by
    rw [Waits, handler]
    exact atRest.waits
  connectingLock := connectingLock.trans atRest.connectingLock
  blockChan := blockChan.trans atRest.blockChan
  free := held.trans atRest.free

/-- A step of a call that leaves the other monitors and the queue alone. -/
theorem Calling.advance {call : Call} {point next : Point}
    (calling : Calling setup state call point (handshakes events) (arrivals events) (work events))
    (within : Within setup after next call.monitor call.hash call.after
      (work (events ++ new) call.monitor))
    (others : ∀ other, other ≠ call.monitor → AtRest setup state other → AtRest setup after other)
    (grown : (exchange call.monitor call.hash).take next.count =
      (exchange call.monitor call.hash).take point.count ++ handshakes new)
    (queue : after.buffer .queue = state.buffer .queue) (noArrival : arrivals new = []) :
    Calling setup after call next (handshakes (events ++ new)) (arrivals (events ++ new))
      (work (events ++ new)) where
  order := calling.order
  within := within
  others other apart := others other apart (calling.others other apart)
  isOperations := by
    rw [handshakes_append, calling.isOperations, grown]
    simp only [List.append_assoc]
  isBlocks := by
    rw [arrivals_append, noArrival, List.append_nil, queue, calling.isBlocks]

/-- What a step has to show: where `ProcessBlocks` is, and that the rest is as it was. -/
theorem Orderly.of_stage (orderly : Orderly setup state events)
    (stage : Stage setup after (handshakes (events ++ new)) (arrivals (events ++ new))
      (work (events ++ new)))
    (doneConnecting : ∀ monitor,
      after.buffer (.doneConnecting monitor) = state.buffer (.doneConnecting monitor))
    (reorgHandlers : ∀ monitor, (system setup).ahead after (.reorgHandler monitor) =
      (system setup).ahead state (.reorgHandler monitor))
    (accounted : Accounted setup (events ++ new)) : Orderly setup after (events ++ new) where
  stage := stage
  doneConnecting monitor := (doneConnecting monitor).trans (orderly.doneConnecting monitor)
  reorgHandlers monitor := by
    rw [reorgHandlers]
    exact orderly.reorgHandlers monitor
  accounted := accounted

/-- A call that takes the mutex of its monitor has the connecting lock to offer. -/
theorem Calling.caller_enters {call : Call} (orderly : Orderly setup state events)
    (calling : Calling setup state call .entering (handshakes events) (arrivals events)
      (work events))
    (moved : (system setup).Moves state .processBlocks new after) :
    Orderly setup after (events ++ new) := by
  obtain ⟨rfl, rfl⟩ := moved.of_lock calling.within.caller
  refine orderly.of_stage (Or.inr ⟨call, .offering, calling.advance ?_ ?_ rfl rfl rfl⟩)
    (by simp) (by simp) (orderly.accounted.append (by simp [Accounts]))
  · constructor
    · rw [System.ahead_goOn_self]
      rfl
    · exact calling.within.handler
    · exact calling.within.connectingLock
    · exact calling.within.blockChan
    · simp [Point.held]
  · intro other apart atRest
    apply atRest.of_same
    all_goals simp [apart]

/-- A call that puts the connecting lock in its channel has the block to pass. -/
theorem Calling.caller_offers {call : Call} (orderly : Orderly setup state events)
    (calling : Calling setup state call .offering (handshakes events) (arrivals events)
      (work events))
    (moved : (system setup).Moves state .processBlocks new after) :
    Orderly setup after (events ++ new) := by
  have empty := calling.within.connectingLock
  rcases moved.of_send calling.within.caller with ⟨-, rfl, rfl⟩ | ⟨_, _, unbuffered, -⟩
  · refine orderly.of_stage (Or.inr ⟨call, .passing, calling.advance ?_ ?_ rfl ?_ rfl⟩)
      (by simp) (by simp) (orderly.accounted.append (by simp [Accounts]))
    · constructor
      · rw [System.ahead_goOn_self]
        rfl
      · exact calling.within.handler
      · exact State.fill_buffer_of_empty state _ empty
      · refine Eq.trans ?_ calling.within.blockChan
        simp
      · exact calling.within.held
    · intro other apart atRest
      apply atRest.of_same
      all_goals simp [apart]
    · simp
  · cases unbuffered

/-- A call that passes the block puts it in the channel, or meets the handler that waits
for it if the channel has no buffer. -/
theorem Calling.caller_passes {call : Call} (orderly : Orderly setup state events)
    (calling : Calling setup state call .passing (handshakes events) (arrivals events)
      (work events))
    (moved : (system setup).Moves state .processBlocks new after) :
    Orderly setup after (events ++ new) := by
  have empty := calling.within.blockChan
  rcases moved.of_send calling.within.caller with
    ⟨-, rfl, rfl⟩ | ⟨other, next, -, receives, rfl, rfl⟩
  · refine orderly.of_stage (Or.inr ⟨call, .queued, calling.advance ?_ ?_ rfl ?_ rfl⟩)
      (by simp) (by simp) (orderly.accounted.append (by simp [Accounts]))
    · constructor
      · rw [System.ahead_goOn_self]
        rfl
      · exact calling.within.handler
      · refine Eq.trans ?_ calling.within.connectingLock
        simp
      · exact State.fill_buffer_of_empty state _ empty
      · exact calling.within.held
    · intro other apart atRest
      apply atRest.of_same
      all_goals simp [apart]
    · simp
  · obtain ⟨rfl, rfl⟩ := orderly.receives_block receives
    refine orderly.of_stage (Or.inr ⟨call, .taken, calling.advance ?_ ?_ rfl rfl rfl⟩)
      (by simp) (by simp) (orderly.accounted.append (by simp [Accounts]))
    · constructor
      · simp [System.resume, Point.caller]
      · simp [System.resume, Point.Handler]
      · exact calling.within.connectingLock
      · exact calling.within.blockChan
      · exact calling.within.held
    · intro other apart atRest
      apply atRest.of_same
      all_goals simp [apart]

/-- A call that goes on at its mutex or on a channel, at whichever point it is. While the
handler has the block, the call waits for its signal and cannot move. -/
theorem Calling.caller_moves {call : Call} {point : Point}
    (orderly : Orderly setup state events)
    (calling : Calling setup state call point (handshakes events) (arrivals events) (work events))
    (notLeaving : point ≠ .leaving)
    (moved : (system setup).Moves state .processBlocks new after) :
    Orderly setup after (events ++ new) := by
  cases point with
  | entering => exact calling.caller_enters orderly moved
  | offering => exact calling.caller_offers orderly moved
  | passing => exact calling.caller_passes orderly moved
  | queued | taken | working =>
    -- the channel is not buffered, so the handler's send is what wakes the caller
    obtain ⟨_, _, present, -⟩ := moved.of_receive calling.within.caller
    rw [orderly.doneConnecting] at present
    cases present
  | leaving => exact absurd rfl notLeaving

/-- A call that returns: the next monitor is called, or the block is done. -/
theorem Calling.caller_returns {call : Call}
    (orderly : Orderly setup state events)
    (calling : Calling setup state call .leaving (handshakes events) (arrivals events)
      (work events))
    (moved : (system setup).Moves state .processBlocks new after) :
    Orderly setup after (events ++ new) := by
  obtain ⟨rfl, rfl⟩ := moved.of_unlock calling.within.caller
  have rest : ∀ monitor, AtRest setup
      ((state.hold call.monitor false).goOn .processBlocks call.after) monitor := by
    intro monitor
    by_cases same : monitor = call.monitor
    · subst same
      constructor
      · simpa [Waits, Point.Handler] using calling.within.handler
      · exact calling.within.connectingLock
      · exact calling.within.blockChan
      · simp
    · apply (calling.others monitor same).of_same
      all_goals simp [same]
  have isOperations : handshakes (events ++ [.unlocked .processBlocks call.monitor]) =
      call.past.flatMap blockExchanges ++
        (call.front ++ [call.monitor]).flatMap (exchange · call.hash) := by
    rw [handshakes_append, calling.isOperations, List.flatMap_append]
    simp only [List.append_assoc, List.append_cancel_left_eq]
    rfl
  have isBlocks : arrivals (events ++ [.unlocked .processBlocks call.monitor]) =
      call.past ++ call.hash :: (state.buffer .queue).map BlockHashHeight.hash := by
    rw [arrivals_append, calling.isBlocks]
    exact List.append_nil _
  refine orderly.of_stage ?_ (by simp) (by simp) (orderly.accounted.append (by simp [Accounts]))
  cases isBack : call.back with
  | nil =>
    refine Or.inl ⟨Or.inr (Or.inl ⟨call.height, ?_⟩), rest, call.past ++ [call.hash], ?_, ?_⟩
    · rw [System.ahead_goOn_self, Call.after, isBack]
      rfl
    · have whole : (call.front ++ [call.monitor]).flatMap (exchange · call.hash) =
          blockExchanges call.hash := by
        rw [blockExchanges, calling.order, isBack]
      rw [isOperations, whole, List.flatMap_append, List.flatMap_singleton]
    · rw [isBlocks, List.append_assoc]
      rfl
  | cons monitor back =>
    refine Or.inr ⟨⟨call.past, call.front ++ [call.monitor], monitor, back, call.hash, call.height⟩,
      .entering, ?_, ?_, fun other _ => rest other, ?_, isBlocks⟩
    · rw [calling.order, isBack, List.append_assoc]
      rfl
    · constructor
      · rw [System.ahead_goOn_self, Call.after, isBack]
        rfl
      · exact (rest monitor).waits
      · exact (rest monitor).connectingLock
      · exact (rest monitor).blockChan
      · exact (rest monitor).free
    · rw [isOperations]
      exact (List.append_nil _).symm

/-- A step between two blocks that leaves the monitors and the queue alone. -/
theorem Between.advance (between : Between setup state (handshakes events) (arrivals events))
    (code : (system setup).ahead after .processBlocks = processBlocks ∨
      (∃ height, (system setup).ahead after .processBlocks = signals height) ∨
      ∃ status, (system setup).ahead after .processBlocks =
        .trySend .updateStatusNodeHeight status .done)
    (rest : ∀ monitor, AtRest setup state monitor → AtRest setup after monitor)
    (queue : after.buffer .queue = state.buffer .queue)
    (noHandshake : handshakes new = []) (noArrival : arrivals new = []) :
    Between setup after (handshakes (events ++ new)) (arrivals (events ++ new)) where
  code := code
  rest monitor := rest monitor (between.rest monitor)
  isPast := by
    obtain ⟨past, isOperations, isBlocks⟩ := between.isPast
    refine ⟨past, ?_, ?_⟩
    · rw [handshakes_append, noHandshake, List.append_nil, isOperations]
    · rw [arrivals_append, noArrival, List.append_nil, queue, isBlocks]

/-- A step of `ProcessBlocks` between two blocks keeps the order: it takes the next block, or
sends a signal. -/
theorem Between.caller_moves (orderly : Orderly setup state events)
    (between : Between setup state (handshakes events) (arrivals events))
    (moved : (system setup).Moves state .processBlocks new after) :
    Orderly setup after (events ++ new) := by
  obtain ⟨past, isOperations, isBlocks⟩ := between.isPast
  rcases between.code with ahead | ⟨height, ahead⟩ | ⟨status, ahead⟩
  · obtain ⟨bh, rest, present, rfl, rfl⟩ := moved.of_receive ahead
    have others : ∀ monitor, AtRest setup ((state.fill .queue rest).goOn .processBlocks
        ((callHandlers syncHandlers bh.hash).andThen (signals bh.height))) monitor := by
      intro monitor
      apply (between.rest monitor).of_same
      all_goals simp
    refine orderly.of_stage (Or.inr ⟨⟨past, [], .stakedb, [.blockdata, .hcsqlite], bh.hash,
      bh.height⟩, .entering, rfl, ?_, fun other _ => others other, ?_, ?_⟩)
      (by simp) (by simp) (orderly.accounted.append (by simp [Accounts]))
    · constructor
      · rw [System.ahead_goOn_self]
        rfl
      · exact (others .stakedb).waits
      · exact (others .stakedb).connectingLock
      · exact (others .stakedb).blockChan
      · exact (others .stakedb).free
    · rw [handshakes_append, isOperations]
      simp [handshakes, handshake?, Point.count]
    · rw [arrivals_append, isBlocks, present, List.append_assoc]
      exact congrArg (past ++ ·) (List.append_nil _)
  · rcases moved.of_trySend ahead with ⟨rfl, rfl⟩ | ⟨rfl, rfl⟩
    all_goals
      refine orderly.of_stage (Or.inl (between.advance ?_ ?_ ?_ rfl rfl))
        (by simp) (by simp) (orderly.accounted.append (by simp [Accounts]))
      · refine Or.inr (Or.inr ⟨height.toUInt64.toUInt32, ?_⟩)
        rw [System.ahead_goOn_self]
        rfl
      · intro monitor atRest
        apply atRest.of_same
        all_goals simp
      · simp
  · rcases moved.of_trySend ahead with ⟨rfl, rfl⟩ | ⟨rfl, rfl⟩
    all_goals
      refine orderly.of_stage (Or.inl (between.advance ?_ ?_ ?_ rfl rfl))
        (by simp) (by simp) (orderly.accounted.append (by simp [Accounts]))
      · refine Or.inl ?_
        rw [System.ahead_goOn_self]
        rfl
      · intro monitor atRest
        apply atRest.of_same
        all_goals simp
      · simp

/-- A handler that waits cannot move before it is sent a block. -/
theorem Waits.stuck {monitor : Monitor} (waits : Waits setup state monitor)
    (empty : state.buffer (.blockChan monitor) = [])
    (moved : (system setup).Moves state (.blockConnectedHandler monitor) new after) : False := by
  rcases waits with ahead | ahead
  · obtain ⟨_, _, present, -⟩ := moved.of_receive ahead
    rw [empty] at present
    cases present
  · exact moved.of_panic ahead

/-- Code that is still to release is not at its end, so it is what the handler has ahead. -/
theorem Releases.resume {monitor : Monitor} {hash : Hash} {thread : Thread}
    {done : List (Performed BlockData Saver)} {code : Code (signature BlockData Saver)}
    (releases : Releases setup monitor hash done code) :
    Releases setup monitor hash done ((system setup).resume thread code) := by
  cases releases with
  | acts behalf later => exact .acts behalf later
  | signals worked ends => exact .signals worked ends
  | panics => exact .panics

/-- Taking the connecting lock over, a handler begins its work. -/
@[simp] theorem work_accepted {thread : Thread} {monitor : Monitor} {token : Unit} :
    work (events ++ [.received thread (.connectingLock monitor) token]) monitor = [] := by
  simp [work, noteWork]

/-- An action of a handler adds to its work. -/
@[simp] theorem work_performed {monitor : Monitor} {action : Action BlockData Saver}
    {result : action.Result} :
    work (events ++ [.performed (.blockConnectedHandler monitor) action result]) monitor =
      work events monitor ++ [⟨action, result⟩] := by
  simp [work, noteWork]

/-- A handler that has been sent a block takes it from the channel, and has the connecting
lock to take next. -/
theorem Calling.handler_takes {call : Call} (orderly : Orderly setup state events)
    (calling : Calling setup state call .queued (handshakes events) (arrivals events) (work events))
    (moved : (system setup).Moves state (.blockConnectedHandler call.monitor) new after) :
    Orderly setup after (events ++ new) := by
  rcases calling.within.handler with ahead | ahead
  · obtain ⟨value, rest, present, rfl, rfl⟩ := moved.of_receive ahead
    rw [calling.within.blockChan] at present
    have isHash : value = call.hash := (List.cons_eq_cons.mp present).1.symm
    have isRest : rest = [] := (List.cons_eq_cons.mp present).2.symm
    subst isHash isRest
    refine orderly.of_stage (Or.inr ⟨call, .taken, calling.advance ?_ ?_ rfl ?_ rfl⟩)
      (by simp) (by simp) (orderly.accounted.append (by simp [Accounts]))
    · constructor
      · rw [System.ahead_goOn_of_ne _ _ _ _ (by simp)]
        exact calling.within.caller
      · exact System.ahead_goOn_self ..
      · refine Eq.trans ?_ calling.within.connectingLock
        simp
      · exact State.fill_buffer_self state _ _
      · exact calling.within.held
    · intro other apart atRest
      apply atRest.of_same
      all_goals simp [apart]
    · simp
  · exact absurd moved fun moved => moved.of_panic ahead

/-- A handler that has taken a block takes the connecting lock over, and has its work on the
block ahead. -/
theorem Calling.handler_accepts {call : Call} (orderly : Orderly setup state events)
    (calling : Calling setup state call .taken (handshakes events) (arrivals events) (work events))
    (moved : (system setup).Moves state (.blockConnectedHandler call.monitor) new after) :
    Orderly setup after (events ++ new) := by
  obtain ⟨rest, present, isRest⟩ :
      ∃ rest : List ((signature BlockData Saver).Value (.connectingLock call.monitor)),
        state.buffer (.connectingLock call.monitor) = () :: rest ∧ rest = [] :=
    ⟨[], calling.within.connectingLock, rfl⟩
  obtain ⟨rfl, rfl⟩ := moved.of_tryReceive calling.within.handler present
  refine orderly.of_stage (Or.inr ⟨call, .working, calling.advance ?_ ?_ rfl ?_ rfl⟩)
    (by simp) (by simp) (orderly.accounted.append (by simp [Accounts]))
  · have releases : Releases setup call.monitor call.hash []
        (blockConnected setup call.monitor call.hash (some ())) :=
      blockConnected_releases call.monitor
    constructor
    · rw [System.ahead_goOn_of_ne _ _ _ _ (by simp)]
      exact calling.within.caller
    · rw [Point.Handler, System.ahead_goOn_self, work_accepted]
      exact releases.resume
    · refine (State.fill_buffer_self state _ _).trans ?_
      rw [isRest]
      rfl
    · refine Eq.trans ?_ calling.within.blockChan
      simp
    · exact calling.within.held
  · intro other apart atRest
    apply atRest.of_same
    all_goals simp [apart]
  · simp

/-- An action of a handler brings it on in its work, and is for the block it has taken. -/
theorem Calling.handler_acts {call : Call} {action : Action BlockData Saver}
    {next : action.Result → Code (signature BlockData Saver)}
    (orderly : Orderly setup state events)
    (calling : Calling setup state call .working (handshakes events) (arrivals events)
      (work events))
    (behalf : action.OnBehalf call.monitor call.hash)
    (later : ∀ result, Releases setup call.monitor call.hash
      (work events call.monitor ++ [⟨action, result⟩]) (next result))
    (ahead : (system setup).ahead state (.blockConnectedHandler call.monitor) = .act action next)
    (moved : (system setup).Moves state (.blockConnectedHandler call.monitor) new after) :
    Orderly setup after (events ++ new) := by
  obtain ⟨result, memory, -, rfl, rfl⟩ := moved.of_act ahead
  refine orderly.of_stage (Or.inr ⟨call, .working, calling.advance ?_ ?_ ?_ rfl rfl⟩)
    (by simp) (by simp) (orderly.accounted.concat ⟨_, _, calling.isOperations, behalf⟩)
  · constructor
    · rw [System.ahead_goOn_of_ne _ _ _ _ (by simp)]
      exact calling.within.caller
    · rw [Point.Handler, System.ahead_goOn_self, work_performed]
      exact (later result).resume
    · exact calling.within.connectingLock
    · exact calling.within.blockChan
    · exact calling.within.held
  · intro other apart atRest
    apply atRest.of_same
    all_goals simp [apart]
  · exact (List.append_nil _).symm

/-- The signal of a handler that has done its work meets the call that waits for it. -/
theorem Calling.handler_signals {call : Call} {next : Code (signature BlockData Saver)}
    (orderly : Orderly setup state events)
    (calling : Calling setup state call .working (handshakes events) (arrivals events)
      (work events))
    (worked : DoesWork setup call.monitor call.hash (work events call.monitor))
    (ends : next = .done ∨ next = .panic)
    (ahead : (system setup).ahead state (.blockConnectedHandler call.monitor) =
      .send (.doneConnecting call.monitor) () next)
    (moved : (system setup).Moves state (.blockConnectedHandler call.monitor) new after) :
    Orderly setup after (events ++ new) := by
  rcases moved.of_send ahead with ⟨room, -⟩ | ⟨other, next, -, receives, rfl, rfl⟩
  · exact absurd room (Nat.not_lt_zero _)
  · obtain rfl := orderly.receives_done receives
    rw [calling.within.caller] at receives
    cases receives
    have signalled : Accounts setup events
        (.sent (.blockConnectedHandler call.monitor) (.doneConnecting call.monitor) ()) :=
      ⟨_, _, calling.isOperations, worked⟩
    have accounted := orderly.accounted.concat signalled
    refine orderly.of_stage (Or.inr ⟨call, .leaving, calling.advance ?_ ?_ rfl rfl rfl⟩)
      (by simp) (by simp) ?_
    · constructor
      · rw [System.ahead_goOn_self]
        rfl
      · show Waits setup _ call.monitor
        rw [Waits, System.ahead_goOn_of_ne _ _ _ _ (by simp), System.ahead_goOn_self]
        rcases ends with rfl | rfl
        · exact Or.inl rfl
        · exact Or.inr rfl
      · exact calling.within.connectingLock
      · exact calling.within.blockChan
      · exact calling.within.held
    · intro other apart atRest
      apply atRest.of_same
      all_goals simp [apart]
    · rw [List.append_cons]
      exact accounted.concat trivial

/-- The handler of the monitor that is called, at whichever point the call is: it takes the
block and the lock, works, and signals. -/
theorem Calling.handler_moves {call : Call} {point : Point}
    (orderly : Orderly setup state events)
    (calling : Calling setup state call point (handshakes events) (arrivals events) (work events))
    (moved : (system setup).Moves state (.blockConnectedHandler call.monitor) new after) :
    Orderly setup after (events ++ new) := by
  cases point with
  | queued => exact calling.handler_takes orderly moved
  | taken => exact calling.handler_accepts orderly moved
  | working =>
    have releases : Releases setup call.monitor call.hash (work events call.monitor)
        ((system setup).ahead state (.blockConnectedHandler call.monitor)) :=
      calling.within.handler
    generalize ahead : (system setup).ahead state (.blockConnectedHandler call.monitor) = code
      at releases
    cases releases with
    | acts behalf later => exact calling.handler_acts orderly behalf later ahead moved
    | signals worked ends => exact calling.handler_signals orderly worked ends ahead moved
    | panics => exact absurd moved fun moved => moved.of_panic ahead
  | _ =>
    have waits : Waits setup state call.monitor := calling.within.handler
    exact absurd moved fun moved => waits.stuck calling.within.blockChan moved

/-- A step that concerns neither `ProcessBlocks` nor the exchange with a monitor. -/
structure Elsewhere (setup : Setup BlockData Saver)
    (state after : State (signature BlockData Saver) Thread (Monitor → Reorganization)) : Prop where
  caller : (system setup).ahead after .processBlocks = (system setup).ahead state .processBlocks
  handlers : ∀ monitor, (system setup).ahead after (.blockConnectedHandler monitor) =
    (system setup).ahead state (.blockConnectedHandler monitor)
  connectingLock : ∀ monitor,
    after.buffer (.connectingLock monitor) = state.buffer (.connectingLock monitor)
  blockChan : ∀ monitor, after.buffer (.blockChan monitor) = state.buffer (.blockChan monitor)
  held : after.held = state.held

/-- Such a step leaves `ProcessBlocks` where it is, if the queue has grown by what has
arrived. -/
theorem Elsewhere.stage (elsewhere : Elsewhere setup state after)
    (stage : Stage setup state (handshakes events) (arrivals events) (work events))
    (noHandshake : handshakes new = [])
    (queue : (after.buffer .queue).map BlockHashHeight.hash =
      (state.buffer .queue).map BlockHashHeight.hash ++ arrivals new)
    (noWork : ∀ monitor done, new.foldl (noteWork monitor) done = done) :
    Stage setup after (handshakes (events ++ new)) (arrivals (events ++ new))
      (work (events ++ new)) := by
  have atRest : ∀ monitor, AtRest setup state monitor → AtRest setup after monitor :=
    fun monitor atRest => atRest.of_same (elsewhere.handlers monitor)
      (elsewhere.connectingLock monitor) (elsewhere.blockChan monitor)
      (congrFun elsewhere.held monitor)
  have sameWork : work (events ++ new) = work events := by
    funext monitor
    exact List.foldl_append.trans (noWork monitor _)
  rw [handshakes_append, noHandshake, List.append_nil, arrivals_append, sameWork]
  rcases stage with between | ⟨call, point, calling⟩
  · refine Or.inl ⟨?_, fun monitor => atRest monitor (between.rest monitor), ?_⟩
    · rw [elsewhere.caller]
      exact between.code
    · obtain ⟨past, isOperations, isBlocks⟩ := between.isPast
      refine ⟨past, isOperations, ?_⟩
      rw [isBlocks, queue, List.append_assoc]
  · refine Or.inr ⟨call, point, calling.order, ?_,
      fun other apart => atRest other (calling.others other apart), calling.isOperations, ?_⟩
    · constructor
      · rw [elsewhere.caller]
        exact calling.within.caller
      · have handler := calling.within.handler
        cases point
        all_goals
          simp only [Point.Handler, Waits] at handler ⊢
          rw [elsewhere.handlers]
          exact handler
      · rw [elsewhere.connectingLock]
        exact calling.within.connectingLock
      · rw [elsewhere.blockChan]
        exact calling.within.blockChan
      · rw [elsewhere.held]
        exact calling.within.held
    · rw [calling.isBlocks, queue, List.append_assoc, List.cons_append]

/-- A step of a `ReorgHandler` keeps the order, since it concerns no exchange with
`ProcessBlocks`. -/
theorem Orderly.reorg_moves (orderly : Orderly setup state events) {monitor : Monitor}
    (moved : (system setup).Moves state (.reorgHandler monitor) new after) :
    Orderly setup after (events ++ new) := by
  rcases orderly.reorgHandlers monitor with ahead | ⟨data, ahead⟩
  · obtain ⟨data, rest, present, rfl, rfl⟩ := moved.of_receive ahead
    constructor
    · refine Elsewhere.stage ?_ orderly.stage rfl ?_ fun _ _ => rfl
      · constructor
        all_goals simp
      · simp [arrivals, arrival?]
    · intro other
      simpa using orderly.doneConnecting other
    · intro other
      by_cases same : other = monitor
      · subst same
        refine Or.inr ⟨data, ?_⟩
        rw [System.ahead_goOn_self]
        rfl
      · rw [System.ahead_goOn_of_ne _ _ _ _ (by simpa using same)]
        exact orderly.reorgHandlers other
    · exact orderly.accounted.append (by simp [Accounts])
  · obtain ⟨_, memory, -, rfl, rfl⟩ := moved.of_act ahead
    constructor
    · refine Elsewhere.stage ?_ orderly.stage rfl ?_ fun _ _ => rfl
      · constructor
        all_goals simp
      · simp [arrivals, arrival?]
    · exact orderly.doneConnecting
    · intro other
      by_cases same : other = monitor
      · subst same
        refine Or.inl ?_
        rw [System.ahead_goOn_self]
        rfl
      · rw [System.ahead_goOn_of_ne _ _ _ _ (by simpa using same)]
        exact orderly.reorgHandlers other
    · exact orderly.accounted.append (by simp [Accounts])

/-- Every step of any goroutine keeps the order, by the cases of who moves. -/
theorem Orderly.step (orderly : Orderly setup state events)
    (taken : (system setup).Step state new after) : Orderly setup after (events ++ new) := by
  cases taken with
  | @moves thread _ _ moved =>
    cases thread with
    | processBlocks =>
      rcases orderly.stage with between | ⟨call, point, calling⟩
      · exact between.caller_moves orderly moved
      · by_cases leaving : point = .leaving
        · subst leaving
          exact calling.caller_returns orderly moved
        · exact calling.caller_moves orderly leaving moved
    | blockConnectedHandler monitor =>
      rcases orderly.stage with between | ⟨call, point, calling⟩
      · exact absurd moved fun moved =>
          (between.rest monitor).waits.stuck (between.rest monitor).blockChan moved
      · by_cases same : monitor = call.monitor
        · subst same
          exact calling.handler_moves orderly moved
        · have atRest := calling.others monitor same
          exact absurd moved fun moved => atRest.waits.stuck atRest.blockChan moved
    | reorgHandler monitor => exact orderly.reorg_moves moved
  | arrives inward value room =>
    rcases inward with rfl | rfl | ⟨monitor, rfl⟩
    · refine ⟨Elsewhere.stage ?_ orderly.stage rfl ?_ (fun _ _ => rfl), ?_, orderly.reorgHandlers,
        orderly.accounted.append (by simp [Accounts])⟩
      · constructor
        all_goals simp
      · have filled := State.fill_buffer_self state .queue (state.buffer .queue ++ [value])
        exact (congrArg (List.map BlockHashHeight.hash) filled).trans List.map_append
      · intro other
        simpa using orderly.doneConnecting other
    all_goals
      refine ⟨Elsewhere.stage ?_ orderly.stage rfl ?_ (fun _ _ => rfl), ?_, orderly.reorgHandlers,
        orderly.accounted.append (by simp [Accounts])⟩
      · constructor
        all_goals simp
      · simp [arrivals, arrival?]
      · intro other
        simpa using orderly.doneConnecting other
  | leaves outward present =>
    rcases outward with rfl | rfl
    all_goals
      refine ⟨Elsewhere.stage ?_ orderly.stage rfl ?_ (fun _ _ => rfl), ?_, orderly.reorgHandlers,
        orderly.accounted.append (by simp [Accounts])⟩
      · constructor
        all_goals simp
      · simp [arrivals]
      · intro other
        simpa using orderly.doneConnecting other

/-- At the start nothing has been queued and every handler waits. -/
theorem orderly_initial :
    Orderly setup ((system setup).initial noReorganization) [] where
  stage := by
    refine Or.inl ⟨Or.inl rfl, fun monitor => ⟨Or.inl rfl, rfl, rfl, rfl⟩, [], rfl, rfl⟩
  doneConnecting _ := rfl
  reorgHandlers _ := Or.inl rfl
  accounted := by
    intro past event later split
    cases past
    all_goals cases split

/-- The invariant holds in every run, by induction on its steps. -/
theorem orderly_run (run : (system setup).Run ((system setup).initial noReorganization) events after) :
    Orderly setup after events :=
  run.invariant (fun events state => Orderly setup state events) orderly_initial
    fun _ _ _ _ orderly taken => orderly.step taken

end Steps

section Results

variable {setup : Setup BlockData Saver}
  {state : State (signature BlockData Saver) Thread (Monitor → Reorganization)}
  {events : List (Event (signature BlockData Saver) Thread)}

/-- The operations so far are the first of those that hand every block to every monitor. -/
theorem Orderly.isPrefix (orderly : Orderly setup state events) :
    handshakes events <+: allExchanges events := by
  rcases orderly.stage with between | ⟨call, point, calling⟩
  · obtain ⟨past, isOperations, isBlocks⟩ := between.isPast
    rw [allExchanges, isOperations, isBlocks, List.flatMap_append]
    exact List.prefix_append ..
  · have whole : blockExchanges call.hash = call.front.flatMap (exchange · call.hash) ++
        (exchange call.monitor call.hash ++ call.back.flatMap (exchange · call.hash)) := by
      rw [blockExchanges, calling.order, List.flatMap_append, List.flatMap_cons]
    rw [allExchanges, calling.isOperations, calling.isBlocks, List.flatMap_append,
      List.flatMap_cons, whole]
    simp only [List.append_assoc, List.prefix_append_right_inj]
    exact (List.take_prefix ..).trans (List.prefix_append ..)

/-- Every action can be performed if the handlers' own work always returns. -/
theorem performs_returns (returns : ∀ action memory, ∃ result, setup.works action memory result)
    (action : Action BlockData Saver) (memory : Monitor → Reorganization) :
    ∃ result after, (system setup).performs action memory result after := by
  obtain ⟨result, returned⟩ := returns action memory
  cases action with
  | readReorg monitor => exact ⟨_, _, rfl, rfl⟩
  | startReorg monitor data => exact ⟨(), _, rfl⟩
  | endReorg monitor => exact ⟨(), _, rfl⟩
  | appendSideChain monitor hash => exact ⟨(), _, rfl⟩
  | _ => exact ⟨result, memory, returned, rfl⟩

/-- A handler that has not panicked waits for its next block. -/
theorem Waits.receives {monitor : Monitor} (waits : Waits setup state monitor)
    (noPanic : state.code (.blockConnectedHandler monitor) ≠ .panic) :
    (system setup).ahead state (.blockConnectedHandler monitor) =
      blockConnectedHandler setup monitor := by
  rcases waits with ahead | ahead
  · exact ahead
  · rw [System.ahead] at ahead
    cases code : state.code (.blockConnectedHandler monitor)
    all_goals
      rw [code] at ahead
      cases ahead
    exact absurd code noPanic

/-- A thread that takes blocks from the queue to their end. -/
def Thread.Handles : Thread → Prop
  | .processBlocks => True
  | .blockConnectedHandler _ => True
  | .reorgHandler _ => False

/-- While a call is under way, `ProcessBlocks` or the handler can move. -/
theorem Calling.progress {call : Call} {point : Point} {operations : List Handshake}
    {blocks : List Hash} {done : Monitor → List (Performed BlockData Saver)}
    (calling : Calling setup state call point operations blocks done)
    (returns : ∀ action memory, ∃ result, setup.works action memory result)
    (noPanic : ∀ thread, state.code thread ≠ .panic) :
    ∃ thread new after, Thread.Handles thread ∧ (system setup).Moves state thread new after := by
  obtain ⟨caller, handler, connectingLock, blockChan, held⟩ := calling.within
  have silent := noPanic (.blockConnectedHandler call.monitor)
  cases point with
  | entering => exact ⟨.processBlocks, _, _, trivial, .locks caller held⟩
  | offering =>
    refine ⟨.processBlocks, _, _, trivial, .sends caller ?_⟩
    rw [connectingLock]
    exact Nat.zero_lt_one
  | passing =>
    by_cases unbuffered : (system setup).capacity (.blockChan call.monitor) = 0
    · exact ⟨.processBlocks, _, _, trivial, .meets (.blockConnectedHandler call.monitor) caller
        unbuffered (handler.receives silent)⟩
    · refine ⟨.processBlocks, _, _, trivial, .sends caller ?_⟩
      rw [blockChan]
      exact Nat.pos_of_ne_zero unbuffered
  | queued =>
    exact ⟨.blockConnectedHandler call.monitor, _, _, trivial,
      .receives (handler.receives silent) blockChan⟩
  | taken =>
    exact ⟨.blockConnectedHandler call.monitor, _, _, trivial,
      .receivesNow handler connectingLock⟩
  | working =>
    refine ⟨.blockConnectedHandler call.monitor, ?_⟩
    have releases : Releases setup call.monitor call.hash (done call.monitor)
        ((system setup).ahead state (.blockConnectedHandler call.monitor)) := handler
    generalize ahead : (system setup).ahead state (.blockConnectedHandler call.monitor) = code
      at releases
    cases releases with
    | @acts _ action next behalf later =>
      obtain ⟨result, after, performed⟩ := performs_returns returns action state.memory
      have moved := System.Moves.acts result ahead performed
      exact ⟨_, _, trivial, moved⟩
    | signals worked ends => exact ⟨_, _, trivial, .meets .processBlocks ahead rfl caller⟩
    | panics =>
      have waits : Waits setup state call.monitor := Or.inr ahead
      rw [waits.receives silent] at ahead
      cases ahead
  | leaving => exact ⟨.processBlocks, _, _, trivial, .unlocks caller⟩

/-- While a block is not handled by every monitor, `ProcessBlocks` or a handler can move. -/
theorem Orderly.progress (orderly : Orderly setup state events)
    (returns : ∀ action memory, ∃ result, setup.works action memory result)
    (noPanic : ∀ thread, state.code thread ≠ .panic)
    (unfinished : handshakes events ≠ allExchanges events) :
    ∃ thread new after, Thread.Handles thread ∧ (system setup).Moves state thread new after := by
  rcases orderly.stage with between | ⟨call, point, calling⟩
  · refine ⟨.processBlocks, ?_⟩
    rcases between.code with ahead | ⟨height, ahead⟩ | ⟨status, ahead⟩
    · cases isQueue : state.buffer .queue with
      | nil =>
        obtain ⟨past, isOperations, isBlocks⟩ := between.isPast
        rw [isQueue] at isBlocks
        have all : arrivals events = past := isBlocks.trans (List.append_nil past)
        rw [allExchanges, all] at unfinished
        exact absurd isOperations unfinished
      | cons bh rest => exact ⟨_, _, trivial, .receives ahead isQueue⟩
    · by_cases room : (state.buffer .newTxChan).length < (system setup).capacity .newTxChan
      · exact ⟨_, _, trivial, .sendsNow ahead room⟩
      · exact ⟨_, _, trivial, .skipsSend ahead (Nat.not_lt.mp room)⟩
    · by_cases room : (state.buffer .updateStatusNodeHeight).length <
          (system setup).capacity .updateStatusNodeHeight
      · exact ⟨_, _, trivial, .sendsNow ahead room⟩
      · exact ⟨_, _, trivial, .skipsSend ahead (Nat.not_lt.mp room)⟩
  · exact calling.progress returns noPanic

/-- In every run of the goroutines the blocks are handed to the monitors one at a time, in
the order of the queue and of `syncHandlers`, each by one exchange. A handler acts for a
block only between the hand-over and its signal, and for no other block, and when it signals
it has done its work on the block since the hand-over, so that the call returns after that.
While a block is not handled by all of the monitors, some of the threads that handle it can
move, if the handlers' own work returns and none has panicked. -/
theorem blocks_handled_in_order
    (run : (system setup).Run ((system setup).initial noReorganization) events state) :
    handshakes events <+: allExchanges events ∧ Attributed events ∧ Worked setup events ∧
      ((∀ action memory, ∃ result, setup.works action memory result) →
        (∀ thread, state.code thread ≠ .panic) → handshakes events ≠ allExchanges events →
        ∃ thread new after, Thread.Handles thread ∧
          (system setup).Moves state thread new after) := by
  have orderly := orderly_run run
  exact ⟨orderly.isPrefix, orderly.accounted.attributed, orderly.accounted.worked,
    orderly.progress⟩

/-- Handlers whose work returns whatever it likes, and no savers. -/
def anyWork : Setup Unit Unit := ⟨[], [], false, false, fun _ _ _ => True⟩

/-- There is a run in which the first block has passed the stake database and nothing has
panicked. -/
theorem firstExchange_ran : ∃ events state,
    (system anyWork).Run ((system anyWork).initial noReorganization) events state ∧
      handshakes events = exchange .stakedb 7 ∧ arrivals events = [7] ∧
      ∀ thread, state.code thread ≠ .panic := by
  have atStart : (system anyWork).Run ((system anyWork).initial noReorganization) []
      ((system anyWork).initial noReorganization) := .start
  have queued := atStart.step (.arrives (Or.inl rfl) (BlockHashHeight.mk 7 1) (by decide))
  have called := (queued.move .processBlocks (.receives rfl rfl)).move .processBlocks (.locks rfl rfl)
  have offered := called.move .processBlocks (.sends rfl Nat.zero_lt_one)
  have passed := offered.move .processBlocks (.meets (.blockConnectedHandler .stakedb) rfl rfl rfl)
  have accepted := passed.move (.blockConnectedHandler .stakedb) (.receivesNow rfl rfl)
  have read := accepted.move (.blockConnectedHandler .stakedb) (.acts _ rfl ⟨rfl, rfl⟩)
  have connected := read.move (.blockConnectedHandler .stakedb) 
    (.acts (Except.error "" : Except String MsgBlock) rfl ⟨trivial, rfl⟩)
  have told := connected.move (.blockConnectedHandler .stakedb) (.meets .processBlocks rfl rfl rfl)
  have returned := told.move .processBlocks (.unlocks rfl)
  refine ⟨_, _, returned, rfl, rfl, ?_⟩
  intro thread panicked
  cases thread with
  | processBlocks => cases panicked
  | blockConnectedHandler monitor =>
    cases monitor
    all_goals cases panicked
  | reorgHandler monitor => cases panicked

/-- Whatever a handler does can return something, so that no run stops for want of an answer. -/
theorem Action.result_nonempty (action : Action Unit Unit) : Nonempty action.Result := by
  cases action
  all_goals
    dsimp only [Action.Result]
    infer_instance

/-- After the first exchange of the run the operations are those of the first block, in order,
and the next handler's turn comes. -/
theorem blocks_handled_in_order_firstExchange : ∃ events state,
    (system anyWork).Run ((system anyWork).initial noReorganization) events state ∧
      handshakes events = exchange .stakedb 7 ∧ handshakes events <+: allExchanges events ∧
      Attributed events ∧ Worked anyWork events ∧ ∃ thread new after, Thread.Handles thread ∧
        (system anyWork).Moves state thread new after := by
  obtain ⟨events, state, run, isExchange, one, noPanic⟩ := firstExchange_ran
  obtain ⟨inOrder, attributed, worked, progress⟩ := blocks_handled_in_order run
  refine ⟨events, state, run, isExchange, inOrder, attributed, worked, ?_⟩
  apply progress
  · intro action _
    exact ⟨action.result_nonempty.some, trivial⟩
  · exact noPanic
  · rw [isExchange, allExchanges, one]
    decide

end Results

end Hcexplorer.BlockQueue

import Hcexplorer.Sample
import Hcexplorer.Library.Runs

/-!
# The mempool monitor

`mempoolMonitor.TxHandler` of `mempool/mempool.go`: one goroutine that receives the
hashes of new transactions, or a nil hash for a new block, counts the ticket
purchases and decides when to collect the data of the mempool again. Everything it
asks the node and the clock while it handles one message is arbitrary.

The counter and the timer are reset before the collection, which may fail, and the
height is advanced before the decision, so a count or a noticed height is lost with
the collection it was for. The law says which messages lose neither. A run of such
messages conserves both, and a run that has another message does not, or not with one
more ticket after that message.

Instants and durations are integers of nanoseconds. `Fees` stands for the fee
statistics that `Collect` computes from the tickets of the mempool; no counter
depends on them.
-/

namespace Hcexplorer.Mempool

open Runs

/-- `MempoolInfo`, what the monitor remembers: the height, two counts of tickets, and when it
collected last. -/
structure MempoolInfo where
  currentHeight : UInt32
  numTicketPurchasesInMempool : UInt32
  numTicketsSinceStatsReport : Int32
  lastCollectTime : Int
deriving DecidableEq, Repr

/-- The settings of `mempoolMonitor`: how many new tickets are enough, and the two intervals. -/
structure Settings where
  newTicketLimit : Int32
  minInterval : Int
  maxInterval : Int
deriving DecidableEq, Repr

/-- `MempoolData`, what is collected of the mempool at a height, with the statistics of fees. -/
structure MempoolData (Fees : Type) where
  height : UInt32
  numTickets : UInt32
  newTickets : UInt32
  fees : Fees
deriving DecidableEq, Repr

/-- What the node answers during one collection: the statistics of the raw mempool,
the number of `TicketFeeInfo` and the block count. -/
structure CollectAnswers (Fees : Type) where
  rawMempool : Except String Fees
  ticketFeeInfo : Except String UInt32
  blockCount : Except String Int64

/-- What is answered while a transaction is handled: the transaction, the block count,
`time.Now` when the time since the last collection is taken, when that since the
transaction is taken and when the timer is reset, and the collection. -/
structure TxAnswers (Fees : Type) where
  rawTransaction : Except String MsgTx
  blockCount : Except String Int64
  now : Int
  laterNow : Int
  collectTime : Int
  collection : CollectAnswers Fees

/-- A message: a nil hash, with the time of the collection and its answers, or a
transaction that was sent at a time. -/
inductive NewTx (Fees : Type) where
  | newBlock (collectTime : Int) (collection : CollectAnswers Fees)
  | transaction (t : Int) (answers : TxAnswers Fees)

variable {Fees : Type}

/-- `Collect`, the three answers of the node in their order, with the first error among them. -/
def collect (answers : CollectAnswers Fees) : Except String (MempoolData Fees) :=
  match answers.rawMempool with
  | .error err => .error err
  | .ok fees =>
    match answers.ticketFeeInfo with
    | .error err => .error err
    | .ok number =>
      match answers.blockCount with
      | .error err => .error err
      | .ok height => .ok ⟨height.toUInt64.toUInt32, number, 0, fees⟩

/-- `CollectAndStore`: the data that the savers get, or the error. The counter and the
timer are reset in any case. -/
def collectAndStore (collectTime : Int) (answers : CollectAnswers Fees) (mpoolInfo : MempoolInfo) :
    Except String (MempoolData Fees) × MempoolInfo :=
  let newTickets := mpoolInfo.numTicketsSinceStatsReport
  let mpoolInfo := { mpoolInfo with numTicketsSinceStatsReport := 0, lastCollectTime := collectTime }
  match collect answers with
  | .error err => (.error err, mpoolInfo)
  | .ok data =>
    (.ok { data with newTickets := newTickets.toUInt32 },
      { mpoolInfo with numTicketPurchasesInMempool := data.numTickets })

/-- What became of a message: it was not counted, it was counted and no collection is
due, the collection was skipped, or it was made. -/
inductive Handled (Fees : Type) where
  | ignored
  | counted
  | skipped
  | collection (result : Except String (MempoolData Fees))

/-- A ticket transaction at the height of the best block is above the recorded one. -/
def seesNewBlock (txHeight : UInt32) (mpoolInfo : MempoolInfo) : Bool :=
  mpoolInfo.currentHeight < txHeight

/-- A collection is due: the height is new, or the last collection is long ago, or
enough tickets came since and it is not too recent. -/
def due (settings : Settings) (txHeight : UInt32) (now : Int) (mpoolInfo : MempoolInfo) : Bool :=
  let timeSinceLast := now - mpoolInfo.lastCollectTime
  seesNewBlock txHeight mpoolInfo || decide (settings.maxInterval < timeSinceLast) ||
    (decide (settings.newTicketLimit ≤ mpoolInfo.numTicketsSinceStatsReport + 1) &&
      decide (settings.minInterval ≤ timeSinceLast))

/-- The rest of `TxHandler` for a ticket purchase, from the block count on. -/
def handleTicket (settings : Settings) (t : Int) (answers : TxAnswers Fees) (txHeight : UInt32)
    (mpoolInfo : MempoolInfo) : Handled Fees × MempoolInfo :=
  let isDue := due settings txHeight answers.now mpoolInfo
  let timeSinceLast := answers.now - mpoolInfo.lastCollectTime
  let mpoolInfo := { mpoolInfo with
    currentHeight := if seesNewBlock txHeight mpoolInfo then txHeight else mpoolInfo.currentHeight
    numTicketsSinceStatsReport := mpoolInfo.numTicketsSinceStatsReport + 1 }
  if isDue then
    -- the transaction was queued before the last collection
    if timeSinceLast < answers.laterNow - t then (.skipped, mpoolInfo)
    else
      let (result, mpoolInfo) := collectAndStore answers.collectTime answers.collection mpoolInfo
      (.collection result, mpoolInfo)
  else (.counted, mpoolInfo)

/-- The height with which a transaction is counted as a ticket purchase, if it is. A
purchase without outputs and a vote without a second input are an index out of range:
no result at all. -/
def ticketHeight (hcd : Hcd) (answers : TxAnswers Fees) : Option (Option UInt32) :=
  match answers.rawTransaction with
  | .error _ => some none
  | .ok tx =>
    match hcd.determineTxType tx with
    | .sstx =>
      match tx.txOut, answers.blockCount with
      | [], _ => none
      | _ :: _, .error _ => some none
      | _ :: _, .ok bestBlock => some (some bestBlock.toUInt64.toUInt32)
    | .ssgen => if tx.txIn.length < 2 then none else some none
    | .regular | .ssrtx => some none

/-- One message of `TxHandler`: a new block collects at once, a ticket only when a collection is
due. -/
def txHandler (hcd : Hcd) (settings : Settings) (mpoolInfo : MempoolInfo) :
    NewTx Fees → Option (Handled Fees × MempoolInfo)
  | .newBlock collectTime collection =>
    let (result, mpoolInfo) := collectAndStore collectTime collection mpoolInfo
    some (.collection result, mpoolInfo)
  | .transaction t answers =>
    match ticketHeight hcd answers with
    | none => none
    | some none => some (.ignored, mpoolInfo)
    | some (some txHeight) => some (handleTicket settings t answers txHeight mpoolInfo)

/-- The data that the savers get, none unless a collection succeeded. -/
def Handled.stored : Handled Fees → List (MempoolData Fees)
  | .collection (.ok data) => [data]
  | .collection (.error _) | .ignored | .counted | .skipped => []

/-- A ticket was counted and no collection was made, be it that none was due or that it was
skipped. -/
def Handled.isWaiting : Handled Fees → Bool
  | .counted | .skipped => true
  | .ignored | .collection _ => false

/-- The monitor, with what happened since its start: the data of the successful
collections, the number of counted tickets, whether a ticket noticed a new height that
no collection succeeded for yet, and whether a ticket after that triggered no
collection. The program keeps only the first field. -/
structure Monitor (Fees : Type) where
  mpoolInfo : MempoolInfo
  stored : List (MempoolData Fees)
  counted : Nat
  noticed : Bool
  missed : Bool

/-- A monitor that starts with a height, a number of tickets and a time. -/
def Monitor.start (height numTickets : UInt32) (time : Int) : Monitor Fees :=
  ⟨⟨height, numTickets, 0, time⟩, [], 0, false, false⟩

/-- The monitor after a message, with the data that the savers got and what has been noticed. -/
def step (hcd : Hcd) (settings : Settings) (monitor : Monitor Fees) (message : NewTx Fees) :
    Option (Monitor Fees) :=
  (txHandler hcd settings monitor.mpoolInfo message).map fun result =>
    let (isTicket, sees) := match message with
      | .newBlock _ _ => (false, false)
      | .transaction _ answers =>
        match ticketHeight hcd answers with
        | some (some txHeight) => (true, seesNewBlock txHeight monitor.mpoolInfo)
        | _ => (false, false)
    { mpoolInfo := result.2
      stored := monitor.stored ++ result.1.stored
      counted := monitor.counted + if isTicket then 1 else 0
      noticed := (monitor.noticed || sees) && result.1.stored.isEmpty
      missed := monitor.missed || (monitor.noticed && result.1.isWaiting) }

/-- The tickets reported to the savers, over all collections. -/
def Monitor.reported (monitor : Monitor Fees) : Int :=
  (monitor.stored.map fun data => (data.newTickets.toNat : Int)).sum

/-- Every counted ticket is reported or still in the counter, and every ticket after a
noticed height that waited for its collection triggered one. -/
def Conserves (monitor : Monitor Fees) : Prop :=
  monitor.reported + monitor.mpoolInfo.numTicketsSinceStatsReport.toInt = monitor.counted ∧
    monitor.missed = false

/-- The node answers all three questions of a collection. -/
def CollectAnswers.Succeeds (answers : CollectAnswers Fees) : Prop :=
  (∃ fees, answers.rawMempool = .ok fees) ∧ (∃ number, answers.ticketFeeInfo = .ok number) ∧
    ∃ height, answers.blockCount = .ok height

/-- A collection is made: it is due, and the transaction was not queued before the last
one. -/
def Collects (settings : Settings) (t : Int) (answers : TxAnswers Fees) (txHeight : UInt32)
    (mpoolInfo : MempoolInfo) : Prop :=
  due settings txHeight answers.now mpoolInfo = true ∧
    answers.laterNow - t ≤ answers.now - mpoolInfo.lastCollectTime

/-- A message that keeps the count: the collection for a new block succeeds or there is
nothing to report, that for a ticket succeeds, and a ticket without a collection fits
the counter. -/
def KeepsCount (hcd : Hcd) (settings : Settings) (monitor : Monitor Fees) : NewTx Fees → Prop
  | .newBlock _ collection =>
    monitor.mpoolInfo.numTicketsSinceStatsReport = 0 ∨ collection.Succeeds
  | .transaction t answers => ∀ txHeight, ticketHeight hcd answers = some (some txHeight) →
      (Collects settings t answers txHeight monitor.mpoolInfo → answers.collection.Succeeds) ∧
      (¬ Collects settings t answers txHeight monitor.mpoolInfo →
        monitor.mpoolInfo.numTicketsSinceStatsReport ≠ Int32.maxValue)

/-- A message that keeps the height: a ticket that sees a new one was not sent before the
last collection, by the two readings of the clock. -/
def KeepsHeight (hcd : Hcd) (monitor : Monitor Fees) : NewTx Fees → Prop
  | .newBlock _ _ => True
  | .transaction t answers => ∀ txHeight, ticketHeight hcd answers = some (some txHeight) →
      seesNewBlock txHeight monitor.mpoolInfo = true →
      answers.laterNow - t ≤ answers.now - monitor.mpoolInfo.lastCollectTime

/-- A message that loses neither a ticket nor a height. -/
def LosesNothing (hcd : Hcd) (settings : Settings) (monitor : Monitor Fees)
    (message : NewTx Fees) : Prop :=
  KeepsCount hcd settings monitor message ∧ KeepsHeight hcd monitor message

/-- A counter that is not negative is reported as it is. -/
theorem toNat_toUInt32 {counter : Int32} (nonneg : 0 ≤ counter.toInt) :
    (counter.toUInt32.toNat : Int) = counter.toInt := by
  have atLeast : 0 ≤ counter := by
    rw [Int32.le_iff_toInt_le]
    simpa using nonneg
  rw [Int32.toNat_toUInt32_of_le atLeast, Int32.toNatClampNeg]
  omega

/-- One more ticket is reported in any case, even where the counter wraps around. -/
theorem toNat_toUInt32_succ {counter : Int32} (nonneg : 0 ≤ counter.toInt) :
    ((counter + 1).toUInt32.toNat : Int) = counter.toInt + 1 := by
  have below : counter.toInt < 2147483648 := counter.toInt_lt
  have same := toNat_toUInt32 nonneg
  have one : (1 : Int32).toUInt32.toNat = 1 := by decide
  rw [Int32.toUInt32_add, UInt32.toNat_add]
  omega

/-- One more ticket fits the counter unless it is full. -/
theorem toInt_succ_iff {counter : Int32} (nonneg : 0 ≤ counter.toInt) :
    (counter + 1).toInt = counter.toInt + 1 ↔ counter ≠ Int32.maxValue := by
  have below : counter.toInt < 2147483648 := counter.toInt_lt
  constructor
  · rintro fits rfl
    exact absurd fits (by decide)
  · intro notFull
    have other : counter.toInt ≠ 2147483647 := fun full =>
      notFull (Int32.toInt_inj.mp (full.trans (by decide)))
    have one : (1 : Int32).toInt = 1 := by decide
    rw [Int32.toInt_add, one, Int.bmod_eq_of_le] <;> omega

/-- What a collection returns: new data with the counted tickets when the node answers,
else an error; the counter is reset. -/
theorem collectAndStore_spec (collectTime : Int) (answers : CollectAnswers Fees)
    (mpoolInfo : MempoolInfo) :
    (collectAndStore collectTime answers mpoolInfo).2.numTicketsSinceStatsReport = 0 ∧
      ((answers.Succeeds ∧ ∃ data : MempoolData Fees,
          data.newTickets = mpoolInfo.numTicketsSinceStatsReport.toUInt32 ∧
          (collectAndStore collectTime answers mpoolInfo).1 = .ok data) ∨
        (¬ answers.Succeeds ∧ ∃ err, (collectAndStore collectTime answers mpoolInfo).1 = .error err)) := by
  unfold collectAndStore collect CollectAnswers.Succeeds
  cases answers.rawMempool with
  | error err => exact ⟨rfl, Or.inr ⟨by simp, err, rfl⟩⟩
  | ok fees =>
    cases answers.ticketFeeInfo with
    | error err => exact ⟨rfl, Or.inr ⟨by simp, err, rfl⟩⟩
    | ok number =>
      cases answers.blockCount with
      | error err => exact ⟨rfl, Or.inr ⟨by simp, err, rfl⟩⟩
      | ok height => exact ⟨rfl, Or.inl ⟨by simp, _, rfl, rfl⟩⟩

/-- The collection for a new block conserves the tickets exactly when it succeeds or
there is nothing to report. -/
theorem newBlock_conserves_iff {hcd : Hcd} {settings : Settings} {monitor : Monitor Fees}
    {collectTime : Int} {collection : CollectAnswers Fees} (conserves : Conserves monitor)
    (nonneg : 0 ≤ monitor.mpoolInfo.numTicketsSinceStatsReport.toInt) :
    KeepsCount hcd settings monitor (.newBlock collectTime collection) ↔
      ∀ next, step hcd settings monitor (.newBlock collectTime collection) = some next →
        Conserves next := by
  obtain ⟨balance, notMissed⟩ := conserves
  obtain ⟨reset, how⟩ := collectAndStore_spec collectTime collection monitor.mpoolInfo
  have zero : (0 : Int32).toInt = 0 := by decide
  simp only [Monitor.reported] at balance
  simp only [step, txHandler, Option.map_some, Option.some.injEq, forall_eq', KeepsCount,
    Conserves, Monitor.reported, notMissed, reset, Bool.false_or]
  rcases how with ⟨succeeds, data, reported, isData⟩ | ⟨fails, err, isError⟩
  · refine iff_of_true (Or.inr succeeds) ?_
    have exact_ := toNat_toUInt32 nonneg
    simp only [isData, Handled.stored, Handled.isWaiting, List.map_append, List.map_cons,
      List.map_nil, List.sum_append, List.sum_cons, List.sum_nil, reported, exact_,
      Bool.false_eq_true, if_false, Bool.and_false, and_true, zero]
    omega
  · simp only [isError, Handled.stored, Handled.isWaiting, List.append_nil, Bool.false_eq_true,
      if_false, zero, fails, or_false, Bool.and_false, and_true]
    constructor
    · intro noTickets
      rw [noTickets, zero] at balance
      omega
    · intro kept
      apply Int32.toInt_inj.mp
      omega

/-- What becomes of a counted ticket: no collection is due, or it is skipped, or it is
made with the new count and resets it. -/
theorem handleTicket_cases (settings : Settings) (t : Int) (answers : TxAnswers Fees)
    (txHeight : UInt32) (mpoolInfo : MempoolInfo) :
    let handled := (handleTicket settings t answers txHeight mpoolInfo).1
    let after := (handleTicket settings t answers txHeight mpoolInfo).2
    (due settings txHeight answers.now mpoolInfo = false ∧ handled = .counted ∧
        after.numTicketsSinceStatsReport = mpoolInfo.numTicketsSinceStatsReport + 1) ∨
      (due settings txHeight answers.now mpoolInfo = true ∧
        ¬ Collects settings t answers txHeight mpoolInfo ∧ handled = .skipped ∧
        after.numTicketsSinceStatsReport = mpoolInfo.numTicketsSinceStatsReport + 1) ∨
      (Collects settings t answers txHeight mpoolInfo ∧ after.numTicketsSinceStatsReport = 0 ∧
        ((answers.collection.Succeeds ∧ ∃ data : MempoolData Fees,
            data.newTickets = (mpoolInfo.numTicketsSinceStatsReport + 1).toUInt32 ∧
            handled = .collection (.ok data)) ∨
          (¬ answers.collection.Succeeds ∧ ∃ err, handled = .collection (.error err)))) := by
  simp only [handleTicket, Collects]
  cases isDue : due settings txHeight answers.now mpoolInfo with
  | false => exact Or.inl ⟨rfl, rfl, rfl⟩
  | true =>
    by_cases queued : answers.now - mpoolInfo.lastCollectTime < answers.laterNow - t
    · refine Or.inr (Or.inl ⟨rfl, fun collects => absurd collects.2 (by omega), ?_⟩)
      simp [queued]
    · have collects : answers.laterNow - t ≤ answers.now - mpoolInfo.lastCollectTime := by omega
      obtain ⟨reset, how⟩ := collectAndStore_spec answers.collectTime answers.collection
        { mpoolInfo with
          currentHeight := if seesNewBlock txHeight mpoolInfo then txHeight else mpoolInfo.currentHeight
          numTicketsSinceStatsReport := mpoolInfo.numTicketsSinceStatsReport + 1 }
      refine Or.inr (Or.inr ⟨⟨rfl, collects⟩, ?_⟩)
      simp only [if_true, if_neg queued]
      refine ⟨reset, ?_⟩
      rcases how with ⟨succeeds, data, reported, isData⟩ | ⟨fails, err, isError⟩
      · exact Or.inl ⟨succeeds, data, reported, by rw [isData]⟩
      · exact Or.inr ⟨fails, err, by rw [isError]⟩

/-- The monitor after a counted ticket, as the handling of the ticket leaves it. -/
theorem step_ticket {hcd : Hcd} {settings : Settings} {monitor : Monitor Fees} {t : Int}
    {answers : TxAnswers Fees} {txHeight : UInt32}
    (isTicket : ticketHeight hcd answers = some (some txHeight)) :
    step hcd settings monitor (.transaction t answers) =
      let result := handleTicket settings t answers txHeight monitor.mpoolInfo
      some {
        mpoolInfo := result.2
        stored := monitor.stored ++ result.1.stored
        counted := monitor.counted + 1
        noticed := (monitor.noticed || seesNewBlock txHeight monitor.mpoolInfo) &&
          result.1.stored.isEmpty
        missed := monitor.missed || (monitor.noticed && result.1.isWaiting) } := by
  simp [step, txHandler, isTicket]

/-- While no noticed height waits, a counted ticket is conserved exactly when its collection
succeeds, if it is made, or else it fits the counter. -/
theorem ticket_conserves_iff {hcd : Hcd} {settings : Settings} {monitor : Monitor Fees} {t : Int}
    {answers : TxAnswers Fees} {txHeight : UInt32} (conserves : Conserves monitor)
    (nonneg : 0 ≤ monitor.mpoolInfo.numTicketsSinceStatsReport.toInt)
    (attended : monitor.noticed = false)
    (isTicket : ticketHeight hcd answers = some (some txHeight)) :
    ((Collects settings t answers txHeight monitor.mpoolInfo → answers.collection.Succeeds) ∧
        (¬ Collects settings t answers txHeight monitor.mpoolInfo →
          monitor.mpoolInfo.numTicketsSinceStatsReport ≠ Int32.maxValue)) ↔
      ∀ next, step hcd settings monitor (.transaction t answers) = some next → Conserves next := by
  obtain ⟨balance, notMissed⟩ := conserves
  have cases_ := handleTicket_cases settings t answers txHeight monitor.mpoolInfo
  have zero : (0 : Int32).toInt = 0 := by decide
  have fits := toInt_succ_iff nonneg
  simp only [Monitor.reported] at balance
  simp only [step_ticket isTicket, Option.some.injEq, forall_eq', Conserves, Monitor.reported,
    notMissed, attended, Bool.false_and, Bool.or_false, and_true]
  rcases cases_ with ⟨notDue, handled, counter⟩ | ⟨-, notCollects, handled, counter⟩ |
    ⟨collects, reset, ⟨succeeds, data, reported, handled⟩ | ⟨fails, err, handled⟩⟩
  · have notCollects : ¬ Collects settings t answers txHeight monitor.mpoolInfo := fun collects => by
      rw [collects.1] at notDue
      cases notDue
    simp only [handled, counter, Handled.stored, List.append_nil, notCollects, not_false_eq_true,
      true_implies, false_implies, true_and, ← fits]
    constructor <;> intro same <;> omega
  · simp only [handled, counter, Handled.stored, List.append_nil, notCollects, not_false_eq_true,
      true_implies, false_implies, true_and, ← fits]
    constructor <;> intro same <;> omega
  · refine iff_of_true ⟨fun _ => succeeds, fun notCollects => absurd collects notCollects⟩ ?_
    have exact_ := toNat_toUInt32_succ nonneg
    simp only [handled, reset, Handled.stored, List.map_append, List.map_cons, List.map_nil,
      List.sum_append, List.sum_cons, List.sum_nil, reported, exact_, zero]
    omega
  · refine iff_of_false (fun condition => fails (condition.1 collects)) ?_
    simp only [handled, reset, Handled.stored, List.append_nil, zero]
    omega

/-- While no noticed height waits, a message conserves the tickets and the heights exactly
when it keeps the count. -/
theorem keepsCount_iff {hcd : Hcd} {settings : Settings} {monitor : Monitor Fees}
    (conserves : Conserves monitor)
    (nonneg : 0 ≤ monitor.mpoolInfo.numTicketsSinceStatsReport.toInt)
    (attended : monitor.noticed = false) (message : NewTx Fees) :
    KeepsCount hcd settings monitor message ↔
      ∀ next, step hcd settings monitor message = some next → Conserves next := by
  cases message with
  | newBlock collectTime collection => exact newBlock_conserves_iff conserves nonneg
  | transaction t answers =>
    cases isTicket : ticketHeight hcd answers with
    | none =>
      refine iff_of_true (fun txHeight impossible => ?_) fun next taken => ?_
      · rw [isTicket] at impossible
        cases impossible
      · simp [step, txHandler, isTicket] at taken
    | some counted =>
      cases counted with
      | none =>
        refine iff_of_true (fun txHeight impossible => ?_) fun next taken => ?_
        · rw [isTicket] at impossible
          cases impossible
        · obtain ⟨balance, notMissed⟩ := conserves
          simp only [step, txHandler, isTicket, Option.map_some, Option.some.injEq] at taken
          obtain rfl := taken
          simpa [Conserves, Monitor.reported, Handled.stored, Handled.isWaiting, notMissed]
            using balance
      | some txHeight =>
        rw [← ticket_conserves_iff conserves nonneg attended isTicket]
        constructor
        · intro loses
          exact loses txHeight isTicket
        · intro condition other same
          obtain rfl : txHeight = other := by
            rw [isTicket] at same
            exact Option.some.inj (Option.some.inj same)
          exact condition

/-- While the tickets are conserved, the counter does not get negative. -/
theorem counter_nonneg_step {hcd : Hcd} {settings : Settings} {monitor next : Monitor Fees}
    {message : NewTx Fees} (conserves : Conserves monitor)
    (nonneg : 0 ≤ monitor.mpoolInfo.numTicketsSinceStatsReport.toInt)
    (taken : step hcd settings monitor message = some next) (kept : Conserves next) :
    0 ≤ next.mpoolInfo.numTicketsSinceStatsReport.toInt := by
  have zero : (0 : Int32).toInt = 0 := by decide
  cases message with
  | newBlock collectTime collection =>
    obtain ⟨reset, -⟩ := collectAndStore_spec collectTime collection monitor.mpoolInfo
    simp only [step, txHandler, Option.map_some, Option.some.injEq] at taken
    obtain rfl := taken
    simp only [reset, zero, le_refl]
  | transaction t answers =>
    cases isTicket : ticketHeight hcd answers with
    | none => simp [step, txHandler, isTicket] at taken
    | some counted =>
      cases counted with
      | none =>
        simp only [step, txHandler, isTicket, Option.map_some, Option.some.injEq] at taken
        obtain rfl := taken
        exact nonneg
      | some txHeight =>
        have balance := conserves.1
        have balanceAfter := kept.1
        simp only [step_ticket isTicket, Option.some.injEq] at taken
        obtain rfl := taken
        simp only [Monitor.reported] at balance balanceAfter ⊢
        rcases handleTicket_cases settings t answers txHeight monitor.mpoolInfo with
          ⟨-, handled, counter⟩ | ⟨-, -, handled, counter⟩ | ⟨-, reset, -⟩
        · simp only [handled, Handled.stored, List.append_nil] at balanceAfter
          omega
        · simp only [handled, Handled.stored, List.append_nil] at balanceAfter
          omega
        · simp only [reset, zero, le_refl]

/-- A message that loses nothing leaves no noticed height waiting: a ticket that sees a new
height makes a collection due, which is not skipped and succeeds. -/
theorem attended_step {hcd : Hcd} {settings : Settings} {monitor next : Monitor Fees}
    {message : NewTx Fees} (attended : monitor.noticed = false)
    (loses : LosesNothing hcd settings monitor message)
    (taken : step hcd settings monitor message = some next) : next.noticed = false := by
  cases message with
  | newBlock collectTime collection =>
    simp only [step, txHandler, Option.map_some, Option.some.injEq] at taken
    obtain rfl := taken
    simp [attended]
  | transaction t answers =>
    cases isTicket : ticketHeight hcd answers with
    | none => simp [step, txHandler, isTicket] at taken
    | some counted =>
      cases counted with
      | none =>
        simp only [step, txHandler, isTicket, Option.map_some, Option.some.injEq] at taken
        obtain rfl := taken
        simp [attended]
      | some txHeight =>
        simp only [step_ticket isTicket, Option.some.injEq] at taken
        obtain rfl := taken
        cases sees : seesNewBlock txHeight monitor.mpoolInfo with
        | false => simp [attended]
        | true =>
          have collects : Collects settings t answers txHeight monitor.mpoolInfo :=
            ⟨by simp [due, sees], loses.2 txHeight isTicket sees⟩
          have succeeds := (loses.1 txHeight isTicket).1 collects
          rcases handleTicket_cases settings t answers txHeight monitor.mpoolInfo with
            ⟨notDue, -, -⟩ | ⟨-, notCollects, -, -⟩ |
            ⟨-, -, ⟨-, data, -, handled⟩ | ⟨fails, -, -⟩⟩
          · rw [collects.1] at notDue
            cases notDue
          · exact absurd collects notCollects
          · simp [handled, Handled.stored]
          · exact absurd succeeds fails

/-- A ticket that was sent before the last collection makes none. -/
theorem isWaiting_of_queued (settings : Settings) {t : Int} {answers : TxAnswers Fees}
    (txHeight : UInt32) {mpoolInfo : MempoolInfo}
    (queued : answers.now - mpoolInfo.lastCollectTime < answers.laterNow - t) :
    let result := handleTicket settings t answers txHeight mpoolInfo
    result.1.isWaiting = true ∧ result.1.stored = [] ∧
      result.2.lastCollectTime = mpoolInfo.lastCollectTime := by
  unfold handleTicket
  cases isDue : due settings txHeight answers.now mpoolInfo with
  | false => exact ⟨rfl, rfl, rfl⟩
  | true =>
    simp only [if_true, if_pos queued]
    exact ⟨rfl, rfl, trivial⟩

/-- A message that does not keep the height is a ticket after which a new height waits. One
more ticket, sent at the same time, triggers no collection for it. -/
theorem missed_of_not_keepsHeight {hcd : Hcd} {settings : Settings} {monitor next : Monitor Fees}
    {message : NewTx Fees} (forgets : ¬ KeepsHeight hcd monitor message)
    (taken : step hcd settings monitor message = some next) :
    ∃ last, step hcd settings next message = some last ∧ last.missed = true := by
  cases message with
  | newBlock collectTime collection => exact absurd trivial forgets
  | transaction t answers =>
    simp only [KeepsHeight, not_forall, Int.not_le] at forgets
    obtain ⟨txHeight, isTicket, sees, queued⟩ := forgets
    obtain ⟨-, nothing, sameTime⟩ :=
      isWaiting_of_queued settings txHeight queued
    simp only [step_ticket isTicket, Option.some.injEq] at taken
    obtain rfl := taken
    refine ⟨_, step_ticket isTicket, ?_⟩
    have stillQueued := queued
    rw [← sameTime] at stillQueued
    obtain ⟨waiting, -, -⟩ :=
      isWaiting_of_queued settings txHeight stillQueued
    simp [sees, nothing, waiting]

/-- A run conserves the tickets and the heights if its messages lose nothing. The invariant
is that the counter is not negative and no noticed height waits. -/
theorem throughout_of_losesNothing {hcd : Hcd} {settings : Settings} {monitor : Monitor Fees}
    {messages : List (NewTx Fees)} (conserves : Conserves monitor)
    (nonneg : 0 ≤ monitor.mpoolInfo.numTicketsSinceStatsReport.toInt)
    (attended : monitor.noticed = false)
    (admitted : Admitted (step hcd settings) (LosesNothing hcd settings) monitor messages) :
    Throughout (step hcd settings) Conserves monitor messages := by
  induction messages generalizing monitor with
  | nil => exact conserves
  | cons message rest inductionHypothesis =>
    refine ⟨conserves, fun next taken => ?_⟩
    have kept : Conserves next :=
      (keepsCount_iff conserves nonneg attended message).mp admitted.1.1 next taken
    exact inductionHypothesis kept (counter_nonneg_step conserves nonneg taken kept)
      (attended_step attended admitted.1 taken) (admitted.2 next taken)

/-- A run with a message that loses something does not conserve both as far as that message,
or not with one more message after it. -/
theorem not_throughout_of_loss {hcd : Hcd} {settings : Settings} {monitor : Monitor Fees}
    {messages : List (NewTx Fees)} (conserves : Conserves monitor)
    (nonneg : 0 ≤ monitor.mpoolInfo.numTicketsSinceStatsReport.toInt)
    (attended : monitor.noticed = false)
    (loss : ¬ Admitted (step hcd settings) (LosesNothing hcd settings) monitor messages) :
    ∃ front last, front <+: messages ∧
      ¬ Throughout (step hcd settings) Conserves monitor (front ++ [last]) := by
  induction messages generalizing monitor with
  | nil => exact absurd trivial loss
  | cons message rest inductionHypothesis =>
    by_cases keeps : KeepsCount hcd settings monitor message
    · have kept := (keepsCount_iff conserves nonneg attended message).mp keeps
      by_cases height : KeepsHeight hcd monitor message
      · simp only [Admitted, not_and, not_forall] at loss
        obtain ⟨next, taken, later⟩ := loss ⟨keeps, height⟩
        obtain ⟨front, last, isFront, broken⟩ := inductionHypothesis (kept next taken)
          (counter_nonneg_step conserves nonneg taken (kept next taken))
          (attended_step attended ⟨keeps, height⟩ taken) later
        exact ⟨message :: front, last, List.cons_prefix_cons.mpr ⟨rfl, isFront⟩,
          fun throughout => broken (throughout.2 next taken)⟩
      · refine ⟨[message], message, List.cons_prefix_cons.mpr ⟨rfl, List.nil_prefix⟩,
          fun throughout => ?_⟩
        obtain ⟨next, taken⟩ : ∃ next, step hcd settings monitor message = some next := by
          cases message with
          | newBlock collectTime collection => exact absurd trivial height
          | transaction t answers =>
            simp only [KeepsHeight, not_forall] at height
            obtain ⟨txHeight, isTicket, -⟩ := height
            exact ⟨_, step_ticket isTicket⟩
        obtain ⟨last, again, missed⟩ := missed_of_not_keepsHeight height taken
        have conservesLast : Conserves last := ((throughout.2 next taken).2 last again)
        rw [conservesLast.2] at missed
        cases missed
    · refine ⟨[], message, List.nil_prefix, fun throughout => keeps ?_⟩
      exact (keepsCount_iff conserves nonneg attended message).mpr throughout.2

/-- Every counted ticket is reported once or still counted, and the ticket after a noticed
height that waits triggers its collection, throughout every run whose messages lose
nothing. A run with another message breaks this as far as that message, or with one more
ticket after it. -/
theorem conserves_run (hcd : Hcd) (settings : Settings) (height numTickets : UInt32) (time : Int)
    (messages : List (NewTx Fees)) :
    (Admitted (step hcd settings) (LosesNothing hcd settings) (.start height numTickets time)
        messages →
      Throughout (step hcd settings) Conserves (.start height numTickets time) messages) ∧
    (¬ Admitted (step hcd settings) (LosesNothing hcd settings) (.start height numTickets time)
        messages →
      ∃ front last, front <+: messages ∧
        ¬ Throughout (step hcd settings) Conserves (.start height numTickets time)
          (front ++ [last])) :=
  ⟨throughout_of_losesNothing ⟨rfl, rfl⟩ (le_refl (0 : Int)) rfl,
    not_throughout_of_loss ⟨rfl, rfl⟩ (le_refl (0 : Int)) rfl⟩

/-- The answers for one ticket of the sample node, at a best height, with everything
asked at one time, and a collection that fails or not. -/
def ticketAt (bestBlock : Int64) (time : Int) (feeInfo : Except String UInt32) : NewTx Unit :=
  .transaction time ⟨.ok (Sample.ticket 7), .ok bestBlock, time, time, time,
    ⟨.ok (), feeInfo, .ok bestBlock⟩⟩

/-- Collect after five tickets, not within ten nanoseconds, at the latest after
a thousand. -/
def settings : Settings := ⟨5, 10, 1000⟩

/-- The first ticket after a block finds the node busy, the next ones do not. -/
def busyNode : List (NewTx Unit) :=
  [ticketAt 6 50 (.error "timeout"), ticketAt 6 60 (.ok 2), ticketAt 6 70 (.ok 3)]

/-- A run without a loss: the first ticket after a block is collected, the next one
waits. -/
def quickNode : List (NewTx Unit) := [ticketAt 6 50 (.ok 1), ticketAt 6 60 (.ok 2)]

/-- Every message of that run loses nothing, so the run conserves the tickets: one of the two
is reported, the other is in the counter. -/
theorem quickNode_conserves :
    Throughout (step Sample.hcd settings) Conserves (.start 5 0 0) quickNode ∧
      ∃ final, exec (step Sample.hcd settings) (.start 5 0 0) quickNode = some final ∧
        final.counted = 2 ∧ final.reported = 1 ∧
        final.mpoolInfo.numTicketsSinceStatsReport = 1 ∧ final.missed = false := by
  have losesNothing : Admitted (step Sample.hcd settings) (LosesNothing Sample.hcd settings)
      (.start 5 0 0) quickNode := by
    refine admitted_cons rfl ⟨fun txHeight isTicket => ⟨fun _ => ?_, fun _ => by decide⟩,
      fun txHeight isTicket _ => by decide⟩ (admitted_cons rfl ⟨fun txHeight isTicket =>
        ⟨fun _ => ?_, fun _ => by decide⟩, fun txHeight isTicket _ => by decide⟩ trivial)
    · exact ⟨⟨_, rfl⟩, ⟨_, rfl⟩, ⟨_, rfl⟩⟩
    · exact ⟨⟨_, rfl⟩, ⟨_, rfl⟩, ⟨_, rfl⟩⟩
  exact ⟨(conserves_run Sample.hcd settings 5 0 0 quickNode).1 losesNothing,
    _, rfl, rfl, rfl, rfl, rfl⟩

/-- The ticket whose collection fails is reported by nobody, and the two tickets that
follow make no collection due for the height it noticed. -/
theorem busyNode_loses :
    (∃ final, exec (step Sample.hcd settings) (.start 5 0 0) busyNode = some final ∧
      final.counted = 3 ∧ final.reported = 0 ∧
      final.mpoolInfo.numTicketsSinceStatsReport = 2 ∧ final.noticed = true ∧
      final.mpoolInfo.currentHeight = 6 ∧ final.missed = true) ∧
    ¬ Throughout (step Sample.hcd settings) Conserves (.start 5 0 0) busyNode := by
  refine ⟨⟨_, rfl, rfl, rfl, rfl, rfl, rfl, rfl⟩, fun throughout => ?_⟩
  have notMissed : true = false := (throughout.final rfl).2
  cases notMissed

end Hcexplorer.Mempool

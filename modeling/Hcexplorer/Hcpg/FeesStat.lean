import Mathlib.Data.List.Nodup
import Mathlib.Data.List.Range
import Hcexplorer.Sample
import Hcexplorer.Hcpg.Rows
import Hcexplorer.Library.Runs

/-!
# Fees by day

`updateFeesStat` sums the fees of one day after another into the table `fees_stat`,
from the day after the last row up to today. Days are computed from the calendar
fields of local times and then taken as UTC days. A day whose statements fail is
passed over, and the last row moves on.

A calendar date is the number of its day since the epoch: `time.Date` of the fields
that `time.Unix` has at a fixed offset is `localDay`, and the time of a row is the
first second of its UTC day. The two floating point columns of a row are computed
from the sums by `FeeRatios`. Between the calls, blocks are stored and the rows of
transactions are added and changed in any way.
-/

namespace Hcexplorer.Hcpg

open Runs

/-- The seconds of a day, by which Unix times are divided into days. -/
def secondsPerDay : Int := 86400

/-- The UTC day of a Unix time, counted from the first day of 1970. -/
def dayOf (time : Int) : Int := time / secondsPerDay

/-- The day of the calendar fields of a Unix time at an offset from UTC. -/
def localDay (offset time : Int) : Int := dayOf (time + offset)

/-- `float64(fees) / float64(rewards)` and `Amount(fees).ToCoin() / float64(size) * 1000`. -/
structure FeeRatios (Ratio : Type) where
  feesRewards : Int → Int → Ratio
  feesPerkb : Int → Int → Ratio

/-- A row of `fees_stat`: the start of a day, the sums of its blocks, and two ratios of these. -/
structure FeesStat (Ratio : Type) where
  time : Int
  fees : Int
  rewards : Int
  size : Int
  feesRewards : Ratio
  feesPerkb : Ratio
deriving DecidableEq, Repr

/-- The three tables, and the time of the last call of `updateFeesStat`. -/
structure FeesDb (Ratio : Type) where
  blocks : List Block
  transactions : List Tx
  feesStat : List (FeesStat Ratio)
  now : Int

/-- The failures of the three statements of one day, by their texts. -/
structure DayFaults where
  rangeBlockHeight : Option String
  rewardsFees : Option String
  insertFeesStat : Option String
deriving DecidableEq, Repr

/-- The failures of the statements of one call: of the two that find the days, and of those of
each day. -/
structure CallFaults where
  maxTime : Option String
  minTime : Option String
  day : Int → DayFaults

/-- The column `time` of a block, in seconds since 1970. -/
def Block.unixTime (block : Block) : Int := block.time.toNat

/-- The first block with a time, if there is one: `MIN(time)` of the blocks. -/
def firstTime (blocks : List Block) : Option Int := (blocks.map Block.unixTime).min?

variable {Ratio : Type}

namespace FeesDb

/-- The result of an aggregate over no rows is NULL, which is not scanned. -/
def scanned : Option Int → Except String Int
  | some value => .ok value
  | none => .error "converting NULL to int is unsupported"

/-- One query that is answered, or fails; an answer without a value is an error of the scan. -/
def queryRow (fault : Option String) (answer : Option Int) : Except String Int :=
  match fault with
  | some err => .error err
  | none => scanned answer

/-- `RetrieveFeesStatLastDay`: the time of the last row, or that of the first block,
and whether it is the latter. -/
def retrieveFeesStatLastDay (faults : CallFaults) (db : FeesDb Ratio) : Except String (Int × Bool) :=
  match queryRow faults.maxTime (db.feesStat.map FeesStat.time).max? with
  | .ok d => .ok (d, false)
  | .error _ =>
    match queryRow faults.minTime (firstTime db.blocks) with
    | .ok d => .ok (d, true)
    | .error err => .error err

/-- The blocks that `RetrieveRangeBlockHeightOneDay` selects, those with a time in the day. -/
def blocksOfDay (day : Int) (db : FeesDb Ratio) : List Block :=
  db.blocks.filter fun block =>
    secondsPerDay * day ≤ block.unixTime ∧ block.unixTime < secondsPerDay * (day + 1)

/-- The sum of their sizes, and their least and greatest height. -/
def rangeBlockHeight (day : Int) (db : FeesDb Ratio) : Option (Int × Int × Int) :=
  let found := db.blocksOfDay day
  match (found.map fun block => (block.height.toNat : Int)).min?,
    (found.map fun block => (block.height.toNat : Int)).max? with
  | some low, some high => some ((found.map fun block => (block.size.toNat : Int)).sum, low, high)
  | _, _ => none

/-- The transactions that `RetrieveRewardsFeesOneDay` selects, those with a height in a range. -/
def txsBetween (low high : Int) (db : FeesDb Ratio) : List Tx :=
  db.transactions.filter fun tx => low ≤ tx.blockHeight.toInt ∧ tx.blockHeight.toInt ≤ high

/-- The rewards and the fees of some transactions: the coinbase amounts, and the fees that are
positive. -/
def rewardsFees (txs : List Tx) : Int × Int :=
  ((txs.map fun tx => if tx.txType = 0 ∧ tx.blockIndex = 0 then tx.sent.toInt else 0).sum,
    (txs.map fun tx => if 0 < tx.fees then tx.fees.toInt else 0).sum)

/-- `UpdateFeesStatOneDay`. The INSERT returns no row, and the error for that is
cleared. -/
def updateFeesStatOneDay (ratios : FeeRatios Ratio) (faults : DayFaults) (day : Int)
    (db : FeesDb Ratio) : Option String × FeesDb Ratio :=
  match faults.rangeBlockHeight, db.rangeBlockHeight day with
  | some err, _ => (some err, db)
  | none, none => (some "converting NULL to int is unsupported", db)
  | none, some (size, min, max) =>
    -- the first two blocks pay no rewards
    let min := if min < 2 then 2 else min
    match faults.rewardsFees, db.txsBetween min max with
    | some err, _ => (some err, db)
    | none, [] => (some "converting NULL to int is unsupported", db)
    | none, tx :: txs =>
      let (rewards, fees) := rewardsFees (tx :: txs)
      match faults.insertFeesStat with
      | some err => (some err, db)
      | none => (none, { db with feesStat := db.feesStat ++
          [⟨secondsPerDay * day, fees, rewards, size, ratios.feesRewards fees rewards,
            ratios.feesPerkb fees size⟩] })

/-- The loop of `updateFeesStat`, with the error of its last day. -/
def updateDays (ratios : FeeRatios Ratio) (faults : Int → DayFaults) :
    Nat → Int → Option String → FeesDb Ratio → Option String × FeesDb Ratio
  | 0, _, err, db => (err, db)
  | remaining + 1, day, _, db =>
    let (err, db) := db.updateFeesStatOneDay ratios (faults day) day
    updateDays ratios faults remaining (day + 1) err db

/-- The first day of the loop. The day after that of the last row is the next one of
its local date. -/
def startDay (offset : Int) (faults : CallFaults) (db : FeesDb Ratio) : Except String Int :=
  match db.retrieveFeesStatLastDay faults with
  | .error err => .error err
  | .ok (d, isInit) => .ok (if isInit then localDay offset d else localDay offset d + 1)

/-- `updateFeesStat` at a time: the days from the start day up to the local day of this time,
which is left out, are summed. -/
def updateFeesStat (ratios : FeeRatios Ratio) (offset now : Int) (faults : CallFaults)
    (db : FeesDb Ratio) : Option String × FeesDb Ratio :=
  let db := { db with now := now }
  match db.startDay offset faults with
  | .error err => (some err, db)
  | .ok startDate =>
    updateDays ratios faults.day (localDay offset now - startDate).toNat startDate none db

end FeesDb

/-- What happens to the tables: blocks and transactions are stored, or the fees are
updated. -/
inductive FeesEvent where
  | stored (blocks : List Block) (transactions : List Tx)
  | updateFeesStat (now : Int) (faults : CallFaults)

namespace FeesDb

/-- One event: blocks are stored, or the table is updated at a time that is not before the last
one. -/
def perform (ratios : FeeRatios Ratio) (offset : Int) (db : FeesDb Ratio) :
    FeesEvent → Option (FeesDb Ratio)
  | .stored blocks transactions =>
    some { db with blocks := db.blocks ++ blocks, transactions := transactions }
  | .updateFeesStat now faults =>
    if db.now ≤ now then some (db.updateFeesStat ratios offset now faults).2 else none

/-- The UTC days of the rows of the table, in their order. -/
def storedDays (db : FeesDb Ratio) : List Int := db.feesStat.map fun row => dayOf row.time

/-- A day is over when its last second has passed at the time of the tables. -/
def Completed (db : FeesDb Ratio) (day : Int) : Prop := secondsPerDay * (day + 1) ≤ db.now

instance (db : FeesDb Ratio) (day : Int) : Decidable (db.Completed day) :=
  inferInstanceAs (Decidable (secondsPerDay * (day + 1) ≤ db.now))

/-- A day has blocks when one of the stored blocks has a time in it. -/
def HasBlocks (db : FeesDb Ratio) (day : Int) : Prop := ∃ block ∈ db.blocks, dayOf block.unixTime = day

/-- At most one row for a UTC day, only for days that are over, and for every such
day with blocks up to the last row. -/
structure OneRowPerDay (db : FeesDb Ratio) : Prop where
  once : db.storedDays.Nodup
  ended : ∀ day ∈ db.storedDays, db.Completed day
  complete : ∀ day last, db.HasBlocks day → db.Completed day → last ∈ db.storedDays → day ≤ last →
    day ∈ db.storedDays

/-- The statements of a day succeed: none of them fails, the day has blocks, and
transactions between their heights. -/
def Sums (faults : DayFaults) (day : Int) (db : FeesDb Ratio) : Prop :=
  faults.rangeBlockHeight = none ∧ faults.rewardsFees = none ∧ faults.insertFeesStat = none ∧
    ∃ size min max, db.rangeBlockHeight day = some (size, min, max) ∧
      db.txsBetween (if min < 2 then 2 else min) max ≠ []

/-- A time lies between the bounds of a day exactly when that is its day. -/
theorem dayOf_eq_iff {time day : Int} :
    dayOf time = day ↔ secondsPerDay * day ≤ time ∧ time < secondsPerDay * (day + 1) := by
  simp only [dayOf, secondsPerDay]
  omega

/-- The time of a row is in its day. -/
@[simp] theorem dayOf_mul (day : Int) : dayOf (secondsPerDay * day) = day := by
  rw [dayOf_eq_iff]
  simp only [secondsPerDay]
  omega

/-- A day that sums has blocks, since without them the range of heights is null. -/
theorem Sums.hasBlocks {faults : DayFaults} {day : Int} {db : FeesDb Ratio}
    (sums : Sums faults day db) : db.HasBlocks day := by
  obtain ⟨-, -, -, size, low, high, found, -⟩ := sums
  cases blocks : db.blocksOfDay day with
  | nil => simp [rangeBlockHeight, blocks] at found
  | cons block rest =>
    have member : block ∈ db.blocksOfDay day := by rw [blocks]; exact List.mem_cons_self
    obtain ⟨isBlock, inDay⟩ := List.mem_filter.mp member
    exact ⟨block, isBlock, dayOf_eq_iff.mpr (of_decide_eq_true inDay)⟩

/-- A day sums or not whatever rows there are. -/
theorem sums_congr {faults : DayFaults} {day : Int} {db other : FeesDb Ratio}
    (sameBlocks : db.blocks = other.blocks) (sameTxs : db.transactions = other.transactions) :
    Sums faults day db ↔ Sums faults day other := by
  simp only [Sums, rangeBlockHeight, blocksOfDay, txsBetween, sameBlocks, sameTxs]

/-- A day that sums gets a row at its start, behind the rows that are there. -/
theorem updateFeesStatOneDay_of_sums (ratios : FeeRatios Ratio) {faults : DayFaults} {day : Int}
    {db : FeesDb Ratio} (sums : Sums faults day db) :
    ∃ row : FeesStat Ratio, row.time = secondsPerDay * day ∧
      db.updateFeesStatOneDay ratios faults day =
        (none, { db with feesStat := db.feesStat ++ [row] }) := by
  obtain ⟨noRangeFault, noSumFault, noInsertFault, size, low, high, found, someTx⟩ := sums
  obtain ⟨tx, txs, between⟩ := List.exists_cons_of_ne_nil someTx
  simp only [updateFeesStatOneDay, noRangeFault, noSumFault, noInsertFault, found, between]
  exact ⟨_, rfl, rfl⟩

/-- Any other day changes nothing, and its error is returned. -/
theorem updateFeesStatOneDay_of_not_sums (ratios : FeeRatios Ratio) {faults : DayFaults} {day : Int}
    {db : FeesDb Ratio} (fails : ¬ Sums faults day db) :
    ∃ err, db.updateFeesStatOneDay ratios faults day = (some err, db) := by
  unfold updateFeesStatOneDay
  cases rangeFault : faults.rangeBlockHeight with
  | some err => exact ⟨err, rfl⟩
  | none =>
    cases found : db.rangeBlockHeight day with
    | none => exact ⟨_, rfl⟩
    | some range =>
      obtain ⟨size, low, high⟩ := range
      dsimp only
      cases sumFault : faults.rewardsFees with
      | some err => exact ⟨err, rfl⟩
      | none =>
        cases between : db.txsBetween (if low < 2 then 2 else low) high with
        | nil => exact ⟨_, rfl⟩
        | cons tx txs =>
          cases insertFault : faults.insertFeesStat with
          | some err => exact ⟨err, rfl⟩
          | none =>
            refine absurd ⟨rangeFault, sumFault, insertFault, size, low, high, found, ?_⟩ fails
            rw [between]
            exact List.cons_ne_nil _ _

/-- What the loop does: it adds one row for each of its days that sums, and changes
nothing else. -/
theorem updateDays_spec (ratios : FeeRatios Ratio) (faults : Int → DayFaults) (remaining : Nat)
    (first : Int) (err : Option String) (db : FeesDb Ratio) :
    let after := (updateDays ratios faults remaining first err db).2
    after.blocks = db.blocks ∧ after.transactions = db.transactions ∧ after.now = db.now ∧
      ∃ added : List Int, after.storedDays = db.storedDays ++ added ∧ added.Nodup ∧
        ∀ day, day ∈ added ↔ first ≤ day ∧ day < first + remaining ∧ Sums (faults day) day db := by
  induction remaining generalizing first err db with
  | zero =>
    refine ⟨rfl, rfl, rfl, [], by simp [updateDays], List.nodup_nil, fun day => ?_⟩
    simp only [List.not_mem_nil, false_iff]
    omega
  | succ remaining inductionHypothesis =>
    simp only [updateDays]
    by_cases sums : Sums (faults first) first db
    · obtain ⟨row, atDay, updated⟩ := updateFeesStatOneDay_of_sums ratios sums
      simp only [updated]
      obtain ⟨sameBlocks, sameTxs, sameNow, added, stored, nodup, mem⟩ :=
        inductionHypothesis (first + 1) none { db with feesStat := db.feesStat ++ [row] }
      refine ⟨sameBlocks, sameTxs, sameNow, first :: added, ?_, ?_, fun day => ?_⟩
      · rw [stored]
        simp [storedDays, atDay]
      · refine List.nodup_cons.mpr ⟨fun again => ?_, nodup⟩
        have later := ((mem first).mp again).1
        omega
      · have sameSums : Sums (faults day) day { db with feesStat := db.feesStat ++ [row] } ↔
            Sums (faults day) day db := sums_congr rfl rfl
        rw [List.mem_cons, mem day, sameSums]
        constructor
        · rintro (rfl | ⟨later, before, daySums⟩)
          · exact ⟨le_rfl, by omega, sums⟩
          · exact ⟨by omega, by omega, daySums⟩
        · rintro ⟨later, before, daySums⟩
          by_cases same : day = first
          · exact Or.inl same
          · exact Or.inr ⟨by omega, by omega, daySums⟩
    · obtain ⟨failure, updated⟩ := updateFeesStatOneDay_of_not_sums ratios sums
      simp only [updated]
      obtain ⟨sameBlocks, sameTxs, sameNow, added, stored, nodup, mem⟩ :=
        inductionHypothesis (first + 1) (some failure) db
      refine ⟨sameBlocks, sameTxs, sameNow, added, stored, nodup, fun day => ?_⟩
      rw [mem day]
      constructor
      · rintro ⟨later, before, daySums⟩
        exact ⟨by omega, by omega, daySums⟩
      · rintro ⟨later, before, daySums⟩
        have other : day ≠ first := by
          rintro rfl
          exact sums daySums
        exact ⟨by omega, by omega, daySums⟩

/-- A call whose loop begins at a day sums no stored day again, sums no day before it
is over, and sums no day after one with blocks that it leaves out. -/
structure SumsInOrder (offset now : Int) (faults : CallFaults) (first : Int) (db : FeesDb Ratio) :
    Prop where
  notAgain : ∀ day ∈ db.storedDays, first ≤ day → day < localDay offset now →
    ¬ Sums (faults.day day) day db
  ended : ∀ day, first ≤ day → dayOf now ≤ day → day < localDay offset now →
    ¬ Sums (faults.day day) day db
  noGap : ∀ day later, db.HasBlocks day → day ∉ db.storedDays →
    (day < first ∨ ¬ Sums (faults.day day) day db) → day < later → first ≤ later →
      later < localDay offset now → ¬ Sums (faults.day later) later db

/-- Blocks are not stored behind the last row for a day without a row, and each call
that gets to its loop sums in order. -/
def KeepsDays (offset : Int) (db : FeesDb Ratio) : FeesEvent → Prop
  | .stored blocks _ => ∀ block ∈ blocks, ∀ last ∈ db.storedDays,
      dayOf block.unixTime ≤ last → dayOf block.unixTime ∈ db.storedDays
  | .updateFeesStat now faults => db.now ≤ now → ∀ first, db.startDay offset faults = .ok first →
      db.SumsInOrder offset now faults first

/-- A day is over at a time exactly when it lies before the day of that time. -/
theorem completed_iff {day now : Int} : secondsPerDay * (day + 1) ≤ now ↔ day < dayOf now := by
  simp only [dayOf, secondsPerDay]
  omega

/-- The starting day does not depend on the time of the call. -/
theorem startDay_now (offset now : Int) (faults : CallFaults) (db : FeesDb Ratio) :
    ({ db with now := now } : FeesDb Ratio).startDay offset faults = db.startDay offset faults := rfl

/-- Time that passes changes nothing: a day up to the last row was over before. -/
theorem OneRowPerDay.tick {db : FeesDb Ratio} (holds : db.OneRowPerDay) {now : Int}
    (later : db.now ≤ now) : ({ db with now := now } : FeesDb Ratio).OneRowPerDay := by
  refine ⟨holds.once, fun day isStored => ?_, ?_⟩
  · have wasOver : secondsPerDay * (day + 1) ≤ db.now := holds.ended day isStored
    exact wasOver.trans later
  · intro day last blocks _ isStored upTo
    have lastOver := holds.ended last isStored
    rw [Completed, completed_iff] at lastOver
    have wasOver : db.Completed day := by
      rw [Completed, completed_iff]
      omega
    exact holds.complete day last blocks wasOver isStored upTo

/-- What a call that finds its first day does to the table: it appends the rows of the days from
the first on, before the local day, whose blocks sum up. -/
theorem updateFeesStat_spec (ratios : FeeRatios Ratio) (now : Int) {offset : Int}
    {faults : CallFaults} {db : FeesDb Ratio} {first : Int}
    (starts : db.startDay offset faults = .ok first) :
    ∃ added, (db.updateFeesStat ratios offset now faults).2.storedDays = db.storedDays ++ added ∧
      added.Nodup ∧
      (∀ day, day ∈ added ↔
        first ≤ day ∧ day < localDay offset now ∧ Sums (faults.day day) day db) ∧
      (∀ day, (db.updateFeesStat ratios offset now faults).2.HasBlocks day ↔ db.HasBlocks day) ∧
      ∀ day, (db.updateFeesStat ratios offset now faults).2.Completed day ↔ day < dayOf now := by
  obtain ⟨sameBlocks, sameTxs, sameNow, added, stored, nodup, mem⟩ :=
    updateDays_spec ratios faults.day (localDay offset now - first).toNat first none
      { db with now := now }
  have updated : db.updateFeesStat ratios offset now faults =
      updateDays ratios faults.day (localDay offset now - first).toNat first none
        { db with now := now } := by
    simp only [updateFeesStat, startDay_now, starts]
  rw [← updated] at sameBlocks sameTxs sameNow stored
  refine ⟨added, stored, nodup, fun day => ?_, fun day => ?_, fun day => ?_⟩
  · have sameSums : Sums (faults.day day) day { db with now := now } ↔
        Sums (faults.day day) day db := sums_congr rfl rfl
    rw [mem day, sameSums]
    constructor
    · rintro ⟨from_, before, sums⟩
      exact ⟨from_, by omega, sums⟩
    · rintro ⟨from_, before, sums⟩
      exact ⟨from_, by omega, sums⟩
  · simp only [HasBlocks, sameBlocks]
  · rw [Completed, sameNow]
    exact completed_iff

/-- A call that sums in order keeps one row per day. -/
theorem oneRowPerDay_of_sumsInOrder {ratios : FeeRatios Ratio} {offset now : Int}
    {faults : CallFaults} {db : FeesDb Ratio} (holds : db.OneRowPerDay) (later : db.now ≤ now)
    {first : Int} (starts : db.startDay offset faults = .ok first)
    (inOrder : db.SumsInOrder offset now faults first) :
    (db.updateFeesStat ratios offset now faults).2.OneRowPerDay := by
  obtain ⟨added, storedDays, nodup, isAdded, hasBlocks, isOver⟩ :=
    updateFeesStat_spec ratios now starts
  generalize (db.updateFeesStat ratios offset now faults).2 = after at *
  obtain ⟨notAgain, ended, noGap⟩ := inOrder
  constructor
  · rw [storedDays, List.nodup_append]
    refine ⟨holds.once, nodup, ?_⟩
    rintro day isStored _ isNew rfl
    obtain ⟨from_, before, sums⟩ := (isAdded day).mp isNew
    exact notAgain day isStored from_ before sums
  · intro day member
    rw [storedDays, List.mem_append] at member
    rw [isOver]
    rcases member with isStored | isNew
    · have wasOver := holds.ended day isStored
      rw [Completed, completed_iff] at wasOver
      have notBack : dayOf db.now ≤ dayOf now := Int.ediv_le_ediv (by decide) later
      omega
    · obtain ⟨from_, before, sums⟩ := (isAdded day).mp isNew
      by_cases isPast : day < dayOf now
      · exact isPast
      · exact absurd sums (ended day from_ (by omega) before)
  · intro day last blocks dayOver member upTo
    rw [hasBlocks] at blocks
    rw [storedDays, List.mem_append] at member ⊢
    rcases member with isStored | isNew
    · have lastOver := holds.ended last isStored
      rw [Completed, completed_iff] at lastOver
      have wasOver : db.Completed day := by
        rw [Completed, completed_iff]
        omega
      exact Or.inl (holds.complete day last blocks wasOver isStored upTo)
    · obtain ⟨from_, before, sums⟩ := (isAdded last).mp isNew
      by_cases isStored : day ∈ db.storedDays
      · exact Or.inl isStored
      · by_cases inLoop : first ≤ day ∧ Sums (faults.day day) day db
        · exact Or.inr ((isAdded day).mpr ⟨inLoop.1, by omega, inLoop.2⟩)
        · have leftOut : day < first ∨ ¬ Sums (faults.day day) day db := by
            by_cases reached : first ≤ day
            · exact Or.inr fun daySums => inLoop ⟨reached, daySums⟩
            · exact Or.inl (by omega)
          have earlier : day < last := by
            by_cases same : day = last
            · exact absurd ⟨same ▸ from_, same ▸ sums⟩ inLoop
            · omega
          exact absurd sums (noGap day last blocks isStored leftOut earlier from_ before)

/-- A call that leaves one row per day has summed in order. -/
theorem sumsInOrder_of_oneRowPerDay {ratios : FeeRatios Ratio} {offset now : Int}
    {faults : CallFaults} {db : FeesDb Ratio} {first : Int}
    (starts : db.startDay offset faults = .ok first)
    (kept : (db.updateFeesStat ratios offset now faults).2.OneRowPerDay) :
    db.SumsInOrder offset now faults first := by
  obtain ⟨added, storedDays, nodup, isAdded, hasBlocks, isOver⟩ :=
    updateFeesStat_spec ratios now starts
  generalize (db.updateFeesStat ratios offset now faults).2 = after at *
  obtain ⟨once, ended, complete⟩ := kept
  rw [storedDays, List.nodup_append] at once
  constructor
  · intro day isStored from_ before sums
    exact once.2.2 day isStored day ((isAdded day).mpr ⟨from_, before, sums⟩) rfl
  · intro day from_ notOver before sums
    have isNew : day ∈ after.storedDays := by
      rw [storedDays, List.mem_append]
      exact Or.inr ((isAdded day).mpr ⟨from_, before, sums⟩)
    have isPast := (isOver day).mp (ended day isNew)
    omega
  · intro day later blocks notStored leftOut earlier from_ before sums
    have laterNew : later ∈ after.storedDays := by
      rw [storedDays, List.mem_append]
      exact Or.inr ((isAdded later).mpr ⟨from_, before, sums⟩)
    have laterOver := (isOver later).mp (ended later laterNew)
    have hasRow := complete day later ((hasBlocks day).mpr blocks)
      ((isOver day).mpr (by omega)) laterNew earlier.le
    rw [storedDays, List.mem_append] at hasRow
    rcases hasRow with isStored | isNew
    · exact notStored isStored
    · obtain ⟨reached, -, daySums⟩ := (isAdded day).mp isNew
      rcases leftOut with outside | fails
      · omega
      · exact fails daySums

/-- A call keeps one row per day exactly when it sums in order. -/
theorem updateFeesStat_oneRowPerDay_iff {ratios : FeeRatios Ratio} {offset now : Int}
    {faults : CallFaults} {db : FeesDb Ratio} (holds : db.OneRowPerDay) (later : db.now ≤ now)
    {first : Int} (starts : db.startDay offset faults = .ok first) :
    db.SumsInOrder offset now faults first ↔
      (db.updateFeesStat ratios offset now faults).2.OneRowPerDay :=
  ⟨oneRowPerDay_of_sumsInOrder holds later starts, sumsInOrder_of_oneRowPerDay starts⟩

/-- One event keeps one row per day exactly under its condition. -/
theorem keepsDays_iff {ratios : FeeRatios Ratio} {offset : Int} {db : FeesDb Ratio}
    (holds : db.OneRowPerDay) (event : FeesEvent) :
    db.KeepsDays offset event ↔
      ∀ next, db.perform ratios offset event = some next → next.OneRowPerDay := by
  cases event with
  | stored blocks transactions =>
    simp only [perform, Option.some.injEq, forall_eq']
    constructor
    · intro inOrder
      refine ⟨holds.once, holds.ended, ?_⟩
      rintro day last ⟨block, isBlock, rfl⟩ dayOver isStored upTo
      rcases List.mem_append.mp isBlock with old | new
      · exact holds.complete _ last ⟨block, old, rfl⟩ dayOver isStored upTo
      · exact inOrder block new last isStored upTo
    · intro after block new last isStored upTo
      have lastOver := holds.ended last isStored
      rw [Completed, completed_iff] at lastOver
      refine after.complete _ last ⟨block, List.mem_append_right _ new, rfl⟩ ?_ isStored upTo
      show secondsPerDay * _ ≤ db.now
      rw [completed_iff]
      omega
  | updateFeesStat now faults =>
    by_cases later : db.now ≤ now
    · simp only [perform, later, if_true, Option.some.injEq, forall_eq', KeepsDays, true_implies]
      cases starts : db.startDay offset faults with
      | error err =>
        refine iff_of_true (fun first impossible => by cases impossible) ?_
        have unchanged : (db.updateFeesStat ratios offset now faults).2 = { db with now := now } := by
          simp only [updateFeesStat, startDay_now, starts]
        rw [unchanged]
        exact holds.tick later
      | ok first =>
        rw [← updateFeesStat_oneRowPerDay_iff holds later starts]
        constructor
        · intro inOrder
          exact inOrder first rfl
        · rintro inOrder _ ⟨⟩
          exact inOrder
    · refine iff_of_true (fun isLater => absurd isLater later) fun next taken => ?_
      simp only [perform, if_neg later] at taken
      cases taken

/-- A table without rows has one for every day it should. -/
theorem oneRowPerDay_of_noRows {db : FeesDb Ratio} (noRows : db.feesStat = []) :
    db.OneRowPerDay := by
  have noDays : db.storedDays = [] := by rw [storedDays, noRows, List.map_nil]
  constructor
  · rw [noDays]
    exact List.nodup_nil
  · intro day isStored
    rw [noDays] at isStored
    cases isStored
  · intro day last _ _ isStored
    rw [noDays] at isStored
    cases isStored

/-- Where the loop begins when the last row is looked for without a failure. -/
theorem startDay_cases {offset first : Int} {faults : CallFaults} {db : FeesDb Ratio}
    (answered : faults.maxTime = none) (starts : db.startDay offset faults = .ok first) :
    (db.feesStat = [] ∧ ∃ time, firstTime db.blocks = some time ∧ first = localDay offset time) ∨
      ∃ last ∈ db.feesStat, (∀ row ∈ db.feesStat, row.time ≤ last.time) ∧
        first = localDay offset last.time + 1 := by
  simp only [startDay, retrieveFeesStatLastDay, queryRow, answered] at starts
  cases found : (db.feesStat.map FeesStat.time).max? with
  | none =>
    have noRows : db.feesStat = [] := by simpa using found
    simp only [found, scanned] at starts
    cases minFault : faults.minTime with
    | some err =>
      rw [minFault] at starts
      cases starts
    | none =>
      simp only [minFault] at starts
      cases oldest : firstTime db.blocks with
      | none =>
        rw [oldest] at starts
        cases starts
      | some time =>
        rw [oldest] at starts
        exact Or.inl ⟨noRows, time, rfl, (Except.ok.inj starts).symm⟩
  | some time =>
    simp only [found, scanned] at starts
    obtain ⟨member, greatest⟩ := List.max?_eq_some_iff.mp found
    obtain ⟨last, isRow, rfl⟩ := List.mem_map.mp member
    exact Or.inr ⟨last, isRow, fun row other => greatest row.time (List.mem_map_of_mem other),
      (Except.ok.inj starts).symm⟩

/-- East of UTC, the loop begins after every stored day if the last row is found. -/
theorem storedDays_lt_startDay {offset first : Int} {faults : CallFaults} {db : FeesDb Ratio}
    (east : 0 ≤ offset) (answered : faults.maxTime = none)
    (starts : db.startDay offset faults = .ok first) {day : Int} (isStored : day ∈ db.storedDays) :
    day < first := by
  obtain ⟨row, isRow, rfl⟩ := List.mem_map.mp isStored
  rcases startDay_cases answered starts with ⟨noRows, -⟩ | ⟨last, -, greatest, rfl⟩
  · rw [noRows] at isRow
    cases isRow
  · have upTo : dayOf row.time ≤ localDay offset last.time :=
      Int.ediv_le_ediv (by decide) (by have := greatest row isRow; omega)
    omega

/-- In UTC, a call sums in order if the last row is found and every day with blocks
that it passes sums. -/
theorem sumsInOrder_utc {now first : Int} {faults : CallFaults} {db : FeesDb Ratio}
    (holds : db.OneRowPerDay) (answered : faults.maxTime = none)
    (starts : db.startDay 0 faults = .ok first)
    (noFailure : ∀ day, first ≤ day → day < dayOf now → db.HasBlocks day →
      Sums (faults.day day) day db) : db.SumsInOrder 0 now faults first := by
  have sameDate : localDay 0 now = dayOf now := by rw [localDay, add_zero]
  constructor
  · intro day isStored reached
    exact absurd (storedDays_lt_startDay le_rfl answered starts isStored) (by omega)
  · intro day _ notOver before
    omega
  · intro day later blocks notStored leftOut earlier reached before _
    by_cases inLoop : first ≤ day
    · rcases leftOut with outside | fails
      · omega
      · exact absurd (noFailure day inLoop (by omega) blocks) fails
    · obtain ⟨block, isBlock, rfl⟩ := blocks
      rcases startDay_cases answered starts with ⟨-, time, oldest, rfl⟩ | ⟨last, isRow, -, rfl⟩
      · have least : time ≤ block.unixTime :=
          (List.min?_eq_some_iff.mp oldest).2 _ (List.mem_map_of_mem isBlock)
        have notBefore : localDay 0 time ≤ dayOf block.unixTime :=
          Int.ediv_le_ediv (by decide) (by omega)
        omega
      · have isStored : dayOf last.time ∈ db.storedDays := List.mem_map_of_mem isRow
        have lastOver := holds.ended _ isStored
        rw [Completed, completed_iff] at lastOver
        have upTo : dayOf block.unixTime ≤ dayOf last.time := by
          rw [localDay, add_zero] at inLoop
          omega
        have isOver : db.Completed (dayOf block.unixTime) := by
          rw [Completed, completed_iff]
          omega
        exact notStored (holds.complete _ _ ⟨block, isBlock, rfl⟩ isOver isStored upTo)

/-- The table has one row per day throughout exactly the runs that store no block
behind the last row and whose calls sum in order. -/
theorem oneRowPerDay_iff (ratios : FeeRatios Ratio) (offset : Int) {db : FeesDb Ratio}
    (start : db.OneRowPerDay) (events : List FeesEvent) :
    Throughout (perform ratios offset) OneRowPerDay db events ↔
      Admitted (perform ratios offset) (KeepsDays offset) db events :=
  throughout_iff_admitted (fun _ => True) (fun _ _ _ _ _ _ _ => trivial)
    (fun _ event _ holds => keepsDays_iff holds event) trivial start

section Samples

/-- A block with one regular transaction, at a height and a time. -/
def blockAt (height : UInt32) (time : Int64) : MsgBlock where
  header := { Sample.header height height 0 with timestamp := time }
  transactions := [⟨1, [], [⟨100, 0, []⟩], height, 0⟩]
  sTransactions := []

/-- The row of a sample block in the blocks table. -/
def blockRow (block : MsgBlock) : Block := msgBlockToDBBlock Sample.hcd block
/-- The rows of the transactions in the regular tree of a sample block. -/
def txRows (block : MsgBlock) : List Tx :=
  (extractBlockTransactions Sample.hcd block .regular).map ExtractedTx.tx

/-- Two blocks, one an hour after the start of the first day and one an hour after that of the
second. -/
def twoDays : List MsgBlock := [blockAt 2 3600, blockAt 3 90000]

/-- Tables without a block and without a row of sums. -/
def noBlocks : FeesDb Unit := ⟨[], [], [], 0⟩

/-- No statement of the call fails. -/
def noFaults : CallFaults := ⟨none, none, fun _ => ⟨none, none, none⟩⟩

/-- The sums alone, without ratios, for the examples. -/
def sumsOnly : FeeRatios Unit := ⟨fun _ _ => (), fun _ _ => ()⟩

/-- The two blocks are stored, with their transactions. -/
def storedTwoDays : FeesEvent :=
  .stored (twoDays.map blockRow) (twoDays.flatMap txRows)

/-- The law in UTC: both days are summed on the third, and nothing is an hour later. -/
theorem oneRowPerDay_iff_utc :
    Throughout (perform sumsOnly 0) OneRowPerDay noBlocks
      [storedTwoDays, .updateFeesStat 172800 noFaults, .updateFeesStat 176400 noFaults] := by
  refine (oneRowPerDay_iff sumsOnly 0 (oneRowPerDay_of_noRows rfl) _).mpr
    (admitted_cons rfl ?_ (admitted_cons rfl ?_ (admitted_cons rfl ?_ trivial)))
  · intro block _ last isStored
    exact absurd isStored List.not_mem_nil
  · intro _ first starts
    refine sumsInOrder_utc (oneRowPerDay_of_noRows rfl) rfl starts ?_
    obtain rfl : (0 : Int) = first := Except.ok.inj starts
    intro day reached before _
    obtain rfl | rfl : day = 0 ∨ day = 1 := by
      have third : dayOf 172800 = 2 := rfl
      omega
    · exact ⟨rfl, rfl, rfl, _, _, _, rfl, List.cons_ne_nil _ _⟩
    · exact ⟨rfl, rfl, rfl, _, _, _, rfl, List.cons_ne_nil _ _⟩
  · intro _ first starts
    obtain rfl : (2 : Int) = first := Except.ok.inj starts
    have third : localDay 0 176400 = 2 := rfl
    constructor
    · intro day _ reached before
      omega
    · intro day reached _ before
      omega
    · intro day later _ _ _ _ reached before
      omega

/-- The statements of the first day fail, and those of the other days do not. -/
def firstDayFails : CallFaults :=
  ⟨none, none, fun day => ⟨if day = 0 then some "connection reset" else none, none, none⟩⟩

/-- The days of the rows at the end of a run. -/
def rowDays (offset : Int) (events : List FeesEvent) : Option (List Int) :=
  (exec (perform sumsOnly offset) noBlocks events).map storedDays

/-- The first day fails once and is never summed. One hour west of UTC the last day
is summed again by every call. One hour east of it the second day is summed half an
hour before its end. -/
theorem not_oneRowPerDay :
    rowDays 0 [storedTwoDays, .updateFeesStat 172800 firstDayFails,
        .updateFeesStat 176400 noFaults] = some [1] ∧
      rowDays (-3600) [storedTwoDays, .updateFeesStat 180000 noFaults,
        .updateFeesStat 183600 noFaults] = some [0, 1, 1] ∧
      rowDays 3600 [storedTwoDays, .updateFeesStat 171000 noFaults] = some [0, 1] ∧
      ¬ Throughout (perform sumsOnly 0) OneRowPerDay noBlocks
        [storedTwoDays, .updateFeesStat 172800 firstDayFails, .updateFeesStat 176400 noFaults] ∧
      ¬ Throughout (perform sumsOnly (-3600)) OneRowPerDay noBlocks
        [storedTwoDays, .updateFeesStat 180000 noFaults, .updateFeesStat 183600 noFaults] ∧
      ¬ Throughout (perform sumsOnly 3600) OneRowPerDay noBlocks
        [storedTwoDays, .updateFeesStat 171000 noFaults] := by
  refine ⟨rfl, rfl, rfl, ?_, ?_, ?_⟩
  · intro throughout
    have isStored := (throughout.final rfl).complete 0 1 ⟨blockRow (blockAt 2 3600), List.mem_cons_self, rfl⟩
      (by decide) (by decide) (by decide)
    exact absurd isStored (by decide)
  · intro throughout
    exact absurd (throughout.final rfl).once (by decide)
  · intro throughout
    have isOver := (throughout.final rfl).ended 1 (by decide)
    exact absurd isOver (by decide)

end Samples

end FeesDb

end Hcexplorer.Hcpg

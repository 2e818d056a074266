import Hcexplorer.Library.ReadWriteLocks
import Hcexplorer.MempoolCache
import Hcexplorer.WebsocketHub

/-!
# The mempool data of the web page

`WebUI.StoreMPData` of `web.go` stores the data in the mempool cache and reads them back from
it for the templates. It keeps the cache locked for reading meanwhile, and the accessors that
it calls lock it for reading once more. `CollectAndStore` makes each call in a goroutine of
its own, so calls can run at once.

Each call is a script under the two mutexes. The hub receives when it is its turn, so a signal
can always be sent.
-/

namespace Hcexplorer.Web

open Runs ReadWriteLocks Mempool

section Model

/-- The mutexes of a `WebUI`: that of its mempool cache, and `templateDataMtx`. -/
inductive UIMutex where
  | mpc
  | templateData
deriving DecidableEq, Repr

/-- `apitypes.MempoolTicketFees`, the fields that are set. -/
structure MempoolTicketFees where
  height : UInt32
  time : Int
  length : UInt32
  feeRates : List ℚ
deriving DecidableEq, Repr

/-- `WebUI` with what its `WebTemplateData` has of the mempool, and the signals that its hub
was sent. -/
structure WebUI where
  mpc : MempoolDataCache
  mempoolFeeInfo : MempoolTicketFeeInfo
  mempoolFees : MempoolTicketFees
  hubRelay : List Websocket.HubSignal

/-- What a call has in its variables: `fie`, and what `GetFeeRates` returned. -/
structure Variables where
  fie : Option MempoolTicketFeeInfo
  feeRates : Option (UInt32 × Int × Nat × List ℚ)

/-- The arguments of a call of `StoreMPData`: the collected data and their time. -/
structure Call where
  data : MempoolData TicketStats
  timestamp : Int

/-- What a call does, operation by operation. -/
abbrev Script := List (Operation UIMutex WebUI Variables)

/-- An action that does not fail, whatever it finds. -/
def acting (perform : WebUI → Variables → WebUI × Variables) : Operation UIMutex WebUI Variables :=
  .action fun td own => some (perform td own)

/-- `MPC.StoreMPData`, which writes the cache under its lock. -/
def cacheStoreMPData (call : Call) : Script :=
  [.locking .lock .mpc,
    acting fun td own => ({ td with mpc := td.mpc.storeMPData call.data call.timestamp }, own),
    .locking .unlock .mpc]

/-- `MPC.GetFeeInfoExtra`, which reads the cache under its read lock. -/
def getFeeInfoExtra : Script :=
  [.locking .rLock .mpc,
    acting fun td own => (td, { own with fie := some td.mpc.getFeeInfoExtra.2 }),
    .locking .rUnlock .mpc]

/-- `MPC.GetFeeRates`, which reads the cache under its read lock and may panic. -/
def getFeeRates (N : Int) : Script :=
  [.locking .rLock .mpc,
    .action fun td own =>
      (td.mpc.getFeeRates N).result?.map fun result => (td, { own with feeRates := some result }),
    .locking .rUnlock .mpc]

/-- The fee info of the template: without enough tickets to fill a block the lowest fee is that
of the next block. -/
def setMempoolFeeInfo (maxFreshStakePerBlock : UInt32) (fie : MempoolTicketFeeInfo) (td : WebUI) :
    WebUI :=
  { td with
    mempoolFeeInfo :=
      if fie.number < maxFreshStakePerBlock then { fie with lowestMineable := 1 / 1000 } else fie }

/-- The fees of the template, as they were read from the cache. -/
def setMempoolFees (result : UInt32 × Int × Nat × List ℚ) (td : WebUI) : WebUI :=
  { td with
    mempoolFees := ⟨result.1, result.2.1, result.2.2.2.length.toUInt32, result.2.2.2⟩ }

/-- `StoreMPData`, which reads the cache under its read lock twice, the second time within the
first. -/
def storeMPData (maxFreshStakePerBlock : UInt32) (call : Call) : Script :=
  cacheStoreMPData call ++ [.locking .rLock .mpc] ++ getFeeInfoExtra ++
    [.locking .lock .templateData,
      acting fun td own => ((own.fie.map (setMempoolFeeInfo maxFreshStakePerBlock · td)).getD td, own)] ++
    getFeeRates 25 ++
    [acting fun td own => ((own.feeRates.map (setMempoolFees · td)).getD td, own),
      .locking .unlock .templateData,
      acting fun td own =>
        ({ td with hubRelay := td.hubRelay ++ [Websocket.Package.sigMempoolFeeInfoUpdate] }, own),
      .locking .rUnlock .mpc]

/-- Calls that were all made and have not begun. -/
def calls {κ : Type} (maxFreshStakePerBlock : UInt32) (td : WebUI) (arguments : κ → Call) :
    State UIMutex κ WebUI Variables :=
  .start (fun caller => storeMPData maxFreshStakePerBlock (arguments caller)) td fun _ => ⟨none, none⟩

end Model

section Law

/-- The order of the mutexes: that of the cache comes before that of the templates. -/
def rank : UIMutex → Nat
  | .mpc => 0
  | .templateData => 1

/-- The rates are always read, so that the action does not panic. -/
theorem getFeeRates_isSome (mpc : MempoolDataCache) (N : Int) :
    (mpc.getFeeRates N).result?.isSome = true := by
  rw [MempoolDataCache.getFeeRates, copied_returned]
  rfl

/-- A call takes the mutexes in this order, apart from the cache that it reads already. -/
theorem storeMPData_disciplined (maxFreshStakePerBlock : UInt32) (call : Call) :
    Disciplined rank (storeMPData maxFreshStakePerBlock call) := by
  have read : ∀ td : WebUI, ∀ _ : Variables, (td.mpc.getFeeRates 25).result?.isSome = true :=
    fun td _ => getFeeRates_isSome td.mpc 25
  have above : ∀ held, (0 < if UIMutex.mpc = held then 1 else 0) →
      rank held < rank UIMutex.templateData := by
    intro held holds
    cases held with
    | mpc => exact Nat.zero_lt_one
    | templateData => exact absurd holds (lt_irrefl 0)
  simpa [storeMPData, cacheStoreMPData, getFeeInfoExtra, getFeeRates, acting, Disciplined, InOrder,
    Reads, Writes, ahead_cons, Operation.is] using And.intro read above

/-- A call of `StoreMPData` gives back every lock that it takes. -/
theorem storeMPData_balanced (maxFreshStakePerBlock : UInt32) (call : Call) :
    Balanced (storeMPData maxFreshStakePerBlock call) := by
  intro mutex
  cases mutex <;> exact ⟨rfl, rfl⟩

variable {κ : Type} [DecidableEq κ] [Fintype κ]

/-- In every run of any number of calls that only announces a writer while no caller that reads
has to read again, no caller waits for what it reads, and some caller can go on until all have
finished, in every state that the run passes. -/
theorem calls_live (maxFreshStakePerBlock : UInt32) (td : WebUI) (arguments : κ → Call)
    {run : List κ}
    (admitted : Admitted step (fun state caller => orderly state caller = true)
      (calls maxFreshStakePerBlock td arguments) run) :
    Throughout step Live (calls maxFreshStakePerBlock td arguments) run :=
  live_throughout (Consistent.start td _
    (fun caller => storeMPData_disciplined maxFreshStakePerBlock (arguments caller))
    (fun caller => storeMPData_balanced maxFreshStakePerBlock (arguments caller))) admitted

/-- A page without mempool data, and data without tickets. -/
def emptyUI : WebUI := ⟨⟨0, 0, 0, 0, [], [], 0, []⟩, ⟨0, 0, 0, 0⟩, ⟨0, 0, 0, []⟩, []⟩

/-- A call with a collection that found no tickets. -/
def emptyCall : Call := ⟨⟨5, 0, 0, ⟨⟨[], [], -1, 0, []⟩, []⟩⟩, 60⟩

/-- The second of two calls begins when the first reads the cache for the last time. -/
def overlapping : List (Fin 2) := List.replicate 13 0 ++ [1, 0, 0, 0, 1]

/-- Overlapping calls do not wait for each other for ever. -/
theorem calls_live_overlapping :
    Throughout step Live (calls 20 emptyUI fun _ : Fin 2 => emptyCall) overlapping :=
  calls_live 20 emptyUI (fun _ => emptyCall) (by decide)

/-- The second of two calls announces itself when the first has begun to read the cache, and
the first is queued behind it when it asks for the fee info: neither goes on. -/
theorem calls_deadlock :
    ∃ final, exec step (calls 20 emptyUI fun _ : Fin 2 => emptyCall) [0, 0, 0, 0, 1, 0] = some final ∧
      final.awaits .mpc 0 = true ∧ final.reads .mpc 0 = 1 ∧ final.writer .mpc = some ⟨1, false⟩ ∧
      (∀ caller, final.todo caller ≠ [] ∧ step final caller = none) ∧ ¬Live final := by
  refine ⟨_, rfl, rfl, rfl, rfl, fun caller => ?_, fun live => ?_⟩
  · match caller with
    | 0 => exact ⟨List.cons_ne_nil _ _, rfl⟩
    | 1 => exact ⟨List.cons_ne_nil _ _, rfl⟩
  · have notReading : 1 = 0 := live.1 .mpc 0 rfl
    cases notReading

end Law

end Hcexplorer.Web
